import LoopForest.Proofs.Parser.Adding

/-!
# The steps of a scan

A scan goes on by a step when it passes over a token or adds a loop (`Parser.Step`), and what is left after some steps is again a
scan (`Parser.Scans`). Every scan is some steps and then one of two ends: there is no token left, or the next one opens a loop that
cannot be read (`exists_scans`), and `Parser.StopsAt` gives the number of that token. A step keeps a parser sound, and it does not depend
on the tokens behind those it passes, so the same steps can be made with other tokens there (`Scans.frame`).
-/

namespace LoopForest

namespace Parser

/-- One step of a scan that goes on. -/
inductive Step (p : Parser) : Parser → Prop where
  /-- A token that opens no loop is passed over. -/
  | pass {t : Token} {rest : List Token} (hrest : p.cursor.rest = t :: rest) (hopen : t.is p.options.keyword = false) :
    Step p (p.skip t rest)
  /-- The loop behind a token is added. -/
  | add {t : Token} {rest : List Token} {q : Parser} (hrest : p.cursor.rest = t :: rest)
    (hopen : t.is p.options.keyword = true) (hadd : addLoop t.location (p.skip t rest) = (.ok (), q)) : Step p q

/-- The scan of the first parser comes to the second one. -/
inductive Scans : Parser → Parser → Prop where
  | refl {p : Parser} : Scans p p
  | step {p q r : Parser} (hstep : p.Step q) (hscan : Scans q r) : Scans p r

/-! ## One step -/

theorem parseProgram_of_nil {p : Parser} (hrest : p.cursor.rest = []) : p.parseProgram = (.ok Forest.root, p) := by
  rw [parseProgram]
  split
  · rfl
  · rename_i h
    rw [hrest] at h
    cases h

theorem parseProgram_of_cons {p : Parser} {t : Token} {rest : List Token} (hrest : p.cursor.rest = t :: rest) :
    p.parseProgram =
      if t.is p.options.keyword then
        match (addLoop t.location (p.skip t rest)).1 with
        | .ok () => (addLoop t.location (p.skip t rest)).2.parseProgram
        | .error e => (.error e, (addLoop t.location (p.skip t rest)).2)
      else (p.skip t rest).parseProgram := by
  rw [parseProgram]
  split
  · rename_i h
    rw [hrest] at h
    cases h
  · rename_i h
    obtain ⟨rfl, rfl⟩ := List.cons.inj (hrest.symm.trans h)
    rfl

namespace Step

variable {p q : Parser}

theorem parseProgram_eq (h : p.Step q) : p.parseProgram = q.parseProgram := by
  cases h with
  | pass hrest hopen =>
    rw [parseProgram_of_cons hrest, hopen]
    rfl
  | add hrest hopen hadd =>
    rw [parseProgram_of_cons hrest, hopen, hadd]
    rfl

theorem choices_eq (h : p.Step q) : q.options = p.options ∧ q.lookup = p.lookup := by
  cases h with
  | pass hrest hopen => exact ⟨rfl, rfl⟩
  | add hrest hopen hadd => exact (addLoop_choices hadd :)

theorem sound (h : p.Step q) (hp : p.Sound) : q.Sound := by
  cases h with
  | pass hrest hopen => exact hp.skip _ _
  | add hrest hopen hadd => exact (hp.skip _ _).addLoop hadd

/-- A step passes some tokens, and it is made in the same way when others come behind them. -/
theorem frame (h : p.Step q) :
    ∃ taken, p.cursor.rest = taken ++ q.cursor.rest ∧ ∀ rest, (p.followedBy (taken ++ rest)).Step (q.followedBy rest) := by
  cases h with
  | @pass t behind hrest hopen =>
    exact ⟨[t], hrest, fun rest => .pass (p := p.followedBy (t :: rest)) rfl hopen⟩
  | @add t behind _ hrest hopen hadd =>
    obtain ⟨taken, htaken, hframe⟩ := addLoop_frame hadd
    refine ⟨t :: taken, hrest.trans (congrArg (t :: ·) htaken), fun rest => ?_⟩
    exact .add (p := p.followedBy (t :: (taken ++ rest))) rfl hopen (hframe rest)

end Step

/-! ## Some steps -/

namespace Scans

variable {p q : Parser}

theorem parseProgram_eq (h : p.Scans q) : p.parseProgram = q.parseProgram := by
  induction h with
  | refl => rfl
  | step hstep _ ih => exact hstep.parseProgram_eq.trans ih

theorem options_eq (h : p.Scans q) : q.options = p.options := by
  induction h with
  | refl => rfl
  | step hstep _ ih => exact ih.trans hstep.choices_eq.1

theorem lookup_eq (h : p.Scans q) : q.lookup = p.lookup := by
  induction h with
  | refl => rfl
  | step hstep _ ih => exact ih.trans hstep.choices_eq.2

theorem sound (h : p.Scans q) (hp : p.Sound) : q.Sound := by
  induction h with
  | refl => exact hp
  | step hstep _ ih => exact ih (hstep.sound hp)

/-- A scan passes some tokens, and it comes to the same parser when others come behind them. -/
theorem frame (h : p.Scans q) :
    ∃ taken, p.cursor.rest = taken ++ q.cursor.rest ∧ ∀ rest, (p.followedBy (taken ++ rest)).Scans (q.followedBy rest) := by
  induction h with
  | refl => exact ⟨[], rfl, fun _ => .refl⟩
  | step hstep _ ih =>
    obtain ⟨first, hfirst, hframe⟩ := hstep.frame
    obtain ⟨more, hmore, hframe'⟩ := ih
    refine ⟨first ++ more, by rw [hfirst, hmore, List.append_assoc], fun rest => ?_⟩
    rw [List.append_assoc]
    exact .step (hframe (more ++ rest)) (hframe' rest)

end Scans

/-! ## The end of a scan -/

/-- The next token opens a loop that cannot be read. -/
inductive Stops (p : Parser) (e : ParseError) (r : Parser) : Prop where
  | intro {t : Token} {rest : List Token} (hrest : p.cursor.rest = t :: rest) (hopen : t.is p.options.keyword = true)
    (hadd : addLoop t.location (p.skip t rest) = (.error e, r))

theorem Stops.parseProgram_eq {p r : Parser} {e : ParseError} (h : p.Stops e r) : p.parseProgram = (.error e, r) := by
  obtain ⟨hrest, hopen, hadd⟩ := h
  rw [parseProgram_of_cons hrest, hopen, hadd]
  rfl

/-- A scan that stops leaves the forest it had come to, and no clause is being read. -/
theorem Stops.rollback {p r : Parser} {e : ParseError} (h : p.Stops e r) (hp : p.Sound) :
    r.forest = p.forest ∧ r.clauseOpener = none := by
  obtain ⟨hrest, hopen, hadd⟩ := h
  obtain ⟨q, hc, rfl⟩ := addLoop_eq_error (hp.skip _ _) hadd
  have hq := (hp.skip _ _).leads ((reads_parseConstruct _).leads_of_eq hc)
  exact ⟨rfl, hq.no_opener⟩

theorem Stops.sound {p r : Parser} {e : ParseError} (h : p.Stops e r) (hp : p.Sound) : r.Sound := by
  obtain ⟨hforest, hopener⟩ := h.rollback hp
  exact ⟨hforest ▸ hp.reached, hforest ▸ hp.root_unowned, hopener⟩

/-- Every scan is some steps up to the last token or up to a loop that cannot be read. -/
theorem exists_scans (p : Parser) :
    ∃ q, p.Scans q ∧ ((q.cursor.rest = [] ∧ p.parseProgram = (.ok Forest.root, q)) ∨
      ∃ e r, q.Stops e r ∧ p.parseProgram = (.error e, r)) := by
  induction p using parseProgram.induct with
  | case1 p hrest => exact ⟨p, .refl, Or.inl ⟨hrest, parseProgram_of_nil hrest⟩⟩
  | case2 p t rest hrest hopen loop hok ih =>
    have hstep : p.Step loop.2 := .add hrest hopen (Prod.ext hok rfl)
    obtain ⟨q, hscan, hend⟩ := ih
    rw [hstep.parseProgram_eq]
    exact ⟨q, .step hstep hscan, hend⟩
  | case3 p t rest hrest hopen loop e herr =>
    have hstop : p.Stops e loop.2 := .intro hrest hopen (Prod.ext herr rfl)
    exact ⟨p, .refl, Or.inr ⟨e, loop.2, hstop, hstop.parseProgram_eq⟩⟩
  | case4 p t rest hrest hopen ih =>
    have hstep : p.Step (p.skip t rest) := .pass hrest (Bool.eq_false_iff.mpr hopen)
    obtain ⟨q, hscan, hend⟩ := ih
    rw [hstep.parseProgram_eq]
    exact ⟨q, .step hstep hscan, hend⟩

/-- The scan of the first parser stops with this error at the construct whose keyword is the token of this number, and leaves the second
parser. -/
def StopsAt (p : Parser) (start : Nat) (e : ParseError) (q : Parser) : Prop :=
  ∃ stop, p.Scans stop ∧ stop.cursor.position = start ∧ stop.Stops e q

/-- A scan that does not answer stops at some construct. -/
theorem exists_stopsAt {p q : Parser} {e : ParseError} (h : p.parseProgram = (.error e, q)) : ∃ start, p.StopsAt start e q := by
  obtain ⟨stop, hscan, ⟨-, heq⟩ | ⟨e', q', hstop, heq⟩⟩ := p.exists_scans
  · cases heq.symm.trans h
  · obtain ⟨he, rfl⟩ := Prod.mk.inj (heq.symm.trans h)
    obtain rfl := Except.error.inj he
    exact ⟨_, stop, hscan, rfl, hstop⟩

end Parser

end LoopForest
