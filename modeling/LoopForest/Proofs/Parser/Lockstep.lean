import LoopForest.Proofs.Parser.Attempts
import Mathlib.Data.List.Forall2

/-!
# Scans side by side

Two parsers may be alike without being equal: one has passed other tokens before, or the two have tokens that differ in what no scan
looks at. Such a likeness is a relation of parsers, over one of the tokens to come, that is kept when both pass a token and when both try
the loop behind one: a `Simulation`. Then it is kept by the steps of a scan (`Simulation.exists_step`), and where the first parser stops,
the second one does (`Simulation.exists_stops`). So it is kept by whole scans (`Simulation.parseProgram`) and by scans made one after the
other (`Simulation.scanTimes`), and their answers go together.
-/

namespace LoopForest

/-- Two outcomes go together: both are answers or both are errors, and as such they are related. -/
inductive Parallel {ε ε' α α' : Type} (E : ε → ε' → Prop) (A : α → α' → Prop) :
    Except ε α → Except ε' α' → Prop where
  | ok {a : α} {a' : α'} (h : A a a') : Parallel E A (.ok a) (.ok a')
  | error {e : ε} {e' : ε'} (h : E e e') : Parallel E A (.error e) (.error e')

section

variable {ε ε' α α' : Type} {E : ε → ε' → Prop} {A : α → α' → Prop} {x : Except ε α} {x' : Except ε' α'}

/-- What two outcomes that go together are. -/
theorem Parallel.exists_eq (h : Parallel E A x x') :
    (∃ a a', x = .ok a ∧ x' = .ok a' ∧ A a a') ∨ ∃ e e', x = .error e ∧ x' = .error e' ∧ E e e' := by
  cases h with
  | ok h => exact Or.inl ⟨_, _, rfl, rfl, h⟩
  | error h => exact Or.inr ⟨_, _, rfl, rfl, h⟩

theorem Parallel.mapError {φ φ' : Type} {F : φ → φ' → Prop} {f : ε → φ} {f' : ε' → φ'} (h : Parallel E A x x')
    (hf : ∀ e e', E e e' → F (f e) (f' e')) : Parallel F A (x.mapError f) (x'.mapError f') := by
  cases h with
  | ok h => exact .ok h
  | error h => exact .error (hf _ _ h)

end

/-- Outcomes go together with equal answers and equal errors just when they are equal. -/
theorem parallel_eq_iff {ε α : Type} {x x' : Except ε α} : Parallel Eq Eq x x' ↔ x = x' := by
  constructor
  · intro h
    cases h with
    | ok h => rw [h]
    | error h => rw [h]
  · rintro rfl
    cases x with
    | ok a => exact .ok rfl
    | error e => exact .error rfl

namespace Parser

/-- Related parsers have related tokens to come, of which both open a loop or neither does. They stay related when they pass such tokens,
and when they try the loop behind them: that has the same outcome, up to the relation of errors. -/
structure Simulation (R : Token → Token → Prop) (E : ParseError → ParseError → Prop) (Rel : Parser → Parser → Prop) : Prop where
  sound : ∀ {p p'}, Rel p p' → p.Sound ∧ p'.Sound
  rest : ∀ {p p'}, Rel p p' → List.Forall₂ R p.cursor.rest p'.cursor.rest
  opens : ∀ {p p' t t'}, Rel p p' → R t t' → t.is p.options.keyword = t'.is p'.options.keyword
  skip : ∀ {p p' t t' ts ts'}, Rel p p' → R t t' → List.Forall₂ R ts ts' → Rel (p.skip t ts) (p'.skip t' ts')
  tried : ∀ {p p' t t' ts ts' answer q}, Rel p p' → R t t' → List.Forall₂ R ts ts' → p.TriedBy t ts (answer, q) →
    ∃ answer' q', p'.TriedBy t' ts' (answer', q') ∧ Parallel E Eq answer answer' ∧ (q.Sound → q'.Sound → Rel q q')

namespace Simulation

variable {R : Token → Token → Prop} {E : ParseError → ParseError → Prop} {Rel : Parser → Parser → Prop} {p p' q : Parser}

theorem exists_step (h : Simulation R E Rel) (hp : Rel p p') (hstep : p.Step q) : ∃ q', p'.Step q' ∧ Rel q q' := by
  obtain ⟨hsound, hsound'⟩ := h.sound hp
  have hq := hstep.sound hsound
  have hrests := h.rest hp
  cases hstep with
  | pass hrest hopen =>
    rw [hrest] at hrests
    obtain ⟨t', ts', ht, hts, hrest'⟩ := List.forall₂_cons_left_iff.mp hrests
    rw [h.opens hp ht] at hopen
    exact ⟨_, .pass hrest' hopen, h.skip hp ht hts⟩
  | add hrest hopen hadd =>
    rw [hrest] at hrests
    obtain ⟨t', ts', ht, hts, hrest'⟩ := List.forall₂_cons_left_iff.mp hrests
    rw [h.opens hp ht] at hopen
    obtain ⟨_, q', htried, hanswer, hrel⟩ := h.tried hp ht hts ((addLoop_eq_iff hsound).mp hadd)
    cases hanswer
    have hstep' := Step.add hrest' hopen (htried.addLoop_eq hsound')
    exact ⟨q', hstep', hrel hq (hstep'.sound hsound')⟩

theorem exists_stops (h : Simulation R E Rel) (hp : Rel p p') {e : ParseError} (hstop : p.Stops e q) :
    ∃ e' q', p'.Stops e' q' ∧ E e e' ∧ Rel q q' := by
  obtain ⟨hsound, hsound'⟩ := h.sound hp
  have hq := hstop.sound hsound
  have hrests := h.rest hp
  obtain ⟨hrest, hopen, hadd⟩ := hstop
  rw [hrest] at hrests
  obtain ⟨t', ts', ht, hts, hrest'⟩ := List.forall₂_cons_left_iff.mp hrests
  rw [h.opens hp ht] at hopen
  obtain ⟨_, q', htried, hanswer, hrel⟩ := h.tried hp ht hts ((addLoop_eq_iff hsound).mp hadd)
  cases hanswer with
  | error he =>
    have hstop' := Stops.intro hrest' hopen (htried.addLoop_eq hsound')
    exact ⟨_, q', hstop', he, hrel hq (hstop'.sound hsound')⟩

theorem exists_scans (h : Simulation R E Rel) (hp : Rel p p') (hscan : p.Scans q) : ∃ q', p'.Scans q' ∧ Rel q q' := by
  induction hscan generalizing p' with
  | refl => exact ⟨p', .refl, hp⟩
  | step hstep _ ih =>
    obtain ⟨r', hstep', hr⟩ := h.exists_step hp hstep
    obtain ⟨q', hscan', hq⟩ := ih hr
    exact ⟨q', .step hstep' hscan', hq⟩

/-- Related parsers scan to answers that go together, and are related behind that. -/
theorem parseProgram (h : Simulation R E Rel) (hp : Rel p p') :
    Parallel E Eq p.parseProgram.1 p'.parseProgram.1 ∧ Rel p.parseProgram.2 p'.parseProgram.2 := by
  obtain ⟨q, hscan, hend⟩ := p.exists_scans
  obtain ⟨q', hscan', hq⟩ := h.exists_scans hp hscan
  rcases hend with ⟨hrest, heq⟩ | ⟨e, r, hstop, heq⟩
  · have hrests := h.rest hq
    rw [hrest] at hrests
    have heq' := hscan'.parseProgram_eq.trans (parseProgram_of_nil (List.forall₂_nil_left_iff.mp hrests))
    rw [heq, heq']
    exact ⟨.ok rfl, hq⟩
  · obtain ⟨e', r', hstop', he, hr⟩ := h.exists_stops hq hstop
    have heq' := hscan'.parseProgram_eq.trans hstop'.parseProgram_eq
    rw [heq, heq']
    exact ⟨.error he, hr⟩

/-- Related parsers that scan so many times have answers that go together one by one, and are related behind that. -/
theorem scanTimes (h : Simulation R E Rel) (hp : Rel p p') (count : Nat) :
    List.Forall₂ (Parallel E Eq) (scanTimes count p).1 (scanTimes count p').1 ∧
      Rel (Parser.scanTimes count p).2 (Parser.scanTimes count p').2 := by
  induction count generalizing p p' with
  | zero => exact ⟨.nil, hp⟩
  | succ count ih =>
    obtain ⟨hanswer, hq⟩ := h.parseProgram hp
    obtain ⟨hlater, hr⟩ := ih hq
    exact ⟨.cons hanswer hlater, hr⟩

end Simulation

end Parser

end LoopForest
