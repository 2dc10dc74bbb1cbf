import LoopForest.Loop.Enclosure
import Mathlib.Data.List.Infix

/-!
# Where an enclosed stretch ends

A stretch ends at the first place where it may. `Enclosure.Ends` says where that is, by counting: at a closing delimiter, and when
delimiters are matched, only where as many are closed as were opened. The depth kept on the way says the same, because it never has to
stop at zero before the stretch ends. So `cut?` takes the shortest beginning that ends so (`Enclosure.cut?_eq_some_iff`), and it fails
only when no beginning does (`Enclosure.cut?_eq_none_iff`).

Hence tokens that are balanced are cut out with the delimiters around them (`Enclosure.cut?_enclosed`), and what lexical matching cuts
out is a beginning of what balanced matching does, and all of it just when at most one delimiter was opened
(`Enclosure.exists_cut?_lexical`).
-/

namespace LoopForest

/-- `taken` is the shortest beginning of the tokens that satisfies `P`. -/
structure Shortest (P : List Token → Prop) (taken ts : List Token) : Prop where
  isPrefix : taken <+: ts
  holds : P taken
  length_le : ∀ before, before <+: ts → P before → taken.length ≤ before.length

namespace Shortest

variable {P Q : List Token → Prop} {taken taken' ts : List Token}

/-- Of two shortest beginnings, the one for the weaker condition is a beginning of the other. -/
theorem isPrefix_of_imp (h : Shortest P taken ts) (h' : Shortest Q taken' ts) (himp : Q taken' → P taken') : taken <+: taken' :=
  List.prefix_of_prefix_length_le h.isPrefix h'.isPrefix (h.length_le taken' h'.isPrefix (himp h'.holds))

theorem unique (h : Shortest P taken ts) (h' : Shortest P taken' ts) : taken = taken' :=
  (h.isPrefix_of_imp h' id).eq_of_length_le (h'.length_le taken h.isPrefix h.holds)

/-- A shortest beginning is still the shortest one for a stronger condition that it satisfies. -/
theorem of_imp (h : Shortest P taken ts) (hq : Q taken) (himp : ∀ before, Q before → P before) : Shortest Q taken ts :=
  ⟨h.isPrefix, hq, fun before hb hqb => h.length_le before hb (himp before hqb)⟩

end Shortest

/-- No beginning of the tokens closes more than it opens, and all of them together close as much as they open. -/
structure Enclosure.Balanced (enclosure : Enclosure) (tokens : List Token) : Prop where
  prefixes : ∀ before, before <+: tokens → before.countP (·.is enclosure.closing) ≤ before.countP (·.is enclosure.opening)
  totals : tokens.countP (·.is enclosure.closing) = tokens.countP (·.is enclosure.opening)

theorem Enclosure.balanced_iff (enclosure : Enclosure) (tokens : List Token) :
    enclosure.Balanced tokens ↔
      (∀ before ∈ tokens.inits, before.countP (·.is enclosure.closing) ≤ before.countP (·.is enclosure.opening)) ∧
        tokens.countP (·.is enclosure.closing) = tokens.countP (·.is enclosure.opening) := by
  simp only [List.mem_inits]
  exact ⟨fun h => ⟨h.prefixes, h.totals⟩, fun h => ⟨h.1, h.2⟩⟩

instance (enclosure : Enclosure) (tokens : List Token) : Decidable (enclosure.Balanced tokens) :=
  decidable_of_iff' _ (enclosure.balanced_iff tokens)

namespace Enclosure

/-- The tokens end with a closing delimiter, and when delimiters are matched, they close as many as are open before them and as they
open. -/
structure Ends (enclosure : Enclosure) (matching : Matching) (depth : Nat) (ts : List Token) : Prop where
  last : ∃ t ∈ ts.getLast?, t.is enclosure.closing = true
  count : matching = .balanced → depth + ts.countP (·.is enclosure.opening) ≤ ts.countP (·.is enclosure.closing)

/-- The tokens end with a closing delimiter, and they close at least as many as they open. -/
def Closes (enclosure : Enclosure) (ts : List Token) : Prop :=
  (∃ t ∈ ts.getLast?, t.is enclosure.closing = true) ∧ ts.countP (·.is enclosure.opening) ≤ ts.countP (·.is enclosure.closing)

variable {enclosure : Enclosure} {matching : Matching} {depth : Nat} {later : Nat} {t : Token} {ts : List Token}

theorem ends_balanced_iff : enclosure.Ends .balanced 0 ts ↔ enclosure.Closes ts :=
  ⟨fun h => ⟨h.last, by simpa using h.count rfl⟩, fun h => ⟨h.1, fun _ => by simpa using h.2⟩⟩

/-- Where a stretch ends when delimiters are matched, it ends when they are not. -/
theorem Ends.lexical (h : enclosure.Ends matching depth ts) (other : Nat) : enclosure.Ends .lexical other ts := ⟨h.last, nofun⟩

theorem not_ends_nil : ¬ enclosure.Ends matching depth [] := by
  rintro ⟨⟨t, ht, -⟩, -⟩
  cases ht

/-- A token that ends a stretch ends it by itself. -/
theorem ends_singleton (h : enclosure.step matching depth t = none) : enclosure.Ends matching depth [t] := by
  cases matching with
  | lexical =>
    have hclose : t.is enclosure.closing = true := by simpa [step] using h
    exact ⟨⟨t, rfl, hclose⟩, nofun⟩
  | balanced =>
    have hall : t.is enclosure.opening = false ∧ t.is enclosure.closing = true ∧ depth ≤ 1 := by
      simp only [step] at h
      split at h
      · cases h
      · next hopen =>
        split at h
        · next hclose => exact ⟨Bool.eq_false_iff.mpr hopen, hclose, by simpa using h⟩
        · cases h
    obtain ⟨hopen, hclose, hle⟩ := hall
    exact ⟨⟨t, rfl, hclose⟩, fun _ => by simpa [List.countP_singleton, hopen, hclose] using hle⟩

theorem opening_ne_closing (h : enclosure ∈ [header, body]) : enclosure.opening ≠ enclosure.closing := by
  revert enclosure
  decide

/-- Cuts of the same tokens that begin with the same ones are the same. -/
theorem Cut.eq_of_inner {c d : Cut} (happend : c.closed ++ c.rest = d.closed ++ d.rest) (hinner : c.inner = d.inner) : c = d := by
  obtain ⟨inner, closer, rest⟩ := c
  obtain ⟨inner', closer', rest'⟩ := d
  obtain rfl : inner = inner' := hinner
  simp only [Cut.closed, List.append_assoc, List.append_cancel_left_eq] at happend
  obtain ⟨rfl, rfl⟩ := List.cons.inj happend
  rfl

theorem Cut.inner_eq_of_closed {c d : Cut} (h : c.closed = d.closed) : c.inner = d.inner := (List.append_inj' h rfl).1

/-- When delimiters are not matched, a closing one ends what is cut off, and there is none before it. -/
theorem closing_of_cut?_lexical {c : Cut} (h : enclosure.cut? .lexical depth ts = some c) :
    c.inner.countP (·.is enclosure.closing) = 0 ∧ c.closer.is enclosure.closing = true := by
  induction ts generalizing depth c with
  | nil => cases h
  | cons t ts ih =>
    rw [cut?] at h
    cases hclose : t.is enclosure.closing with
    | true =>
      have hstep : enclosure.step .lexical depth t = none := by simp [step, hclose]
      rw [hstep] at h
      obtain rfl := Option.some.inj h
      exact ⟨rfl, hclose⟩
    | false =>
      have hstep : enclosure.step .lexical depth t = some depth := by simp [step, hclose]
      rw [hstep] at h
      obtain ⟨d, hd, rfl⟩ := Option.map_eq_some_iff.mp h
      obtain ⟨hinner, hcloser⟩ := ih hd
      exact ⟨by simp [hclose, hinner], hcloser⟩

/-- Tokens without delimiters are balanced. -/
theorem Balanced.of_forall_not {inner : List Token} (hopen : ∀ t ∈ inner, t.is enclosure.opening = false)
    (hclose : ∀ t ∈ inner, t.is enclosure.closing = false) : enclosure.Balanced inner := by
  have hcount : ∀ text, (∀ t ∈ inner, t.is text = false) → ∀ before, before <+: inner → before.countP (·.is text) = 0 :=
    fun text hno before hb => List.countP_eq_zero.mpr fun t ht => by simp [hno t (hb.subset ht)]
  refine ⟨fun before hb => ?_, ?_⟩
  · rw [hcount _ hclose before hb]
    exact Nat.zero_le _
  · rw [hcount _ hclose inner (List.prefix_refl _), hcount _ hopen inner (List.prefix_refl _)]

section

variable (hne : enclosure.opening ≠ enclosure.closing)

include hne

theorem not_is_closing (h : t.is enclosure.opening = true) : t.is enclosure.closing = false := by
  rw [Token.is_eq_true_iff] at h
  simp [Token.is, h, hne]

/-- A token that does not end a stretch changes the depth by what it opens and closes, and when it closes something the depth behind it
is not zero. -/
theorem step_eq_some (h : enclosure.step matching depth t = some later) :
    (matching = .balanced → later + [t].countP (·.is enclosure.closing) = depth + [t].countP (·.is enclosure.opening)) ∧
      (t.is enclosure.closing = true → matching = .balanced ∧ 0 < later) := by
  simp only [List.countP_singleton]
  cases matching with
  | lexical =>
    simp only [step] at h
    split at h
    · cases h
    · next hclose => exact ⟨nofun, fun hc => absurd hc hclose⟩
  | balanced =>
    simp only [step] at h
    split at h
    · next hopen =>
      obtain rfl := Option.some.inj h
      simp [hopen, not_is_closing hne hopen]
    · next hopen =>
      split at h
      · next hclose =>
        split at h
        · cases h
        · obtain rfl := Option.some.inj h
          simp only [hopen, hclose, if_true]
          exact ⟨fun _ => by simp only [Bool.false_eq_true, if_false]; omega, fun _ => ⟨trivial, by omega⟩⟩
      · next hclose =>
        obtain rfl := Option.some.inj h
        simp [hopen, hclose]

/-- Behind a token that does not end a stretch, it ends where it does from the depth behind the token. -/
theorem ends_cons_iff (h : enclosure.step matching depth t = some later) :
    enclosure.Ends matching depth (t :: ts) ↔ enclosure.Ends matching later ts := by
  obtain ⟨hcount, hclose⟩ := step_eq_some hne h
  cases ts with
  | nil =>
    refine iff_of_false ?_ not_ends_nil
    rintro ⟨⟨u, hu, hlast⟩, hends⟩
    obtain rfl := Option.some.inj hu
    obtain ⟨hmatching, hpos⟩ := hclose hlast
    have := hcount hmatching
    have := hends hmatching
    omega
  | cons u us =>
    have hcons : ∀ p : Token → Bool, (t :: u :: us).countP p = [t].countP p + (u :: us).countP p := fun p => by
      rw [← List.countP_append, List.singleton_append]
    have hiff : matching = .balanced →
        (depth + (t :: u :: us).countP (·.is enclosure.opening) ≤ (t :: u :: us).countP (·.is enclosure.closing) ↔
          later + (u :: us).countP (·.is enclosure.opening) ≤ (u :: us).countP (·.is enclosure.closing)) := fun hmatching => by
      have := hcount hmatching
      rw [hcons, hcons]
      omega
    constructor
    · rintro ⟨hlast, hends⟩
      rw [List.getLast?_cons_cons] at hlast
      exact ⟨hlast, fun hmatching => (hiff hmatching).mp (hends hmatching)⟩
    · rintro ⟨hlast, hends⟩
      rw [← List.getLast?_cons_cons (a := t)] at hlast
      exact ⟨hlast, fun hmatching => (hiff hmatching).mpr (hends hmatching)⟩

/-- What is cut off is the shortest beginning that ends so. -/
theorem shortest_of_cut? {c : Cut} (h : enclosure.cut? matching depth ts = some c) :
    Shortest (enclosure.Ends matching depth) c.closed ts := by
  induction ts generalizing depth c with
  | nil => cases h
  | cons t ts ih =>
    rw [cut?] at h
    cases hstep : enclosure.step matching depth t with
    | none =>
      rw [hstep] at h
      obtain rfl := Option.some.inj h
      refine ⟨⟨ts, rfl⟩, ends_singleton hstep, fun before _ hends => ?_⟩
      exact List.length_pos_of_ne_nil fun heq => not_ends_nil (heq ▸ hends)
    | some later =>
      rw [hstep] at h
      obtain ⟨d, hd, rfl⟩ := Option.map_eq_some_iff.mp h
      obtain ⟨hbegins, hends, hle⟩ := ih hd
      refine ⟨List.cons_prefix_cons.mpr ⟨rfl, hbegins⟩, (ends_cons_iff hne hstep).mpr hends, fun before hb hends' => ?_⟩
      obtain rfl | ⟨before, rfl, hb'⟩ := List.prefix_cons_iff.mp hb
      · exact absurd hends' not_ends_nil
      · exact Nat.succ_le_succ (hle before hb' ((ends_cons_iff hne hstep).mp hends'))

/-- When nothing is cut off, no beginning ends so. -/
theorem not_ends_of_cut? (h : enclosure.cut? matching depth ts = none) {before : List Token} (hb : before <+: ts) :
    ¬ enclosure.Ends matching depth before := by
  induction ts generalizing depth before with
  | nil => exact List.prefix_nil.mp hb ▸ not_ends_nil
  | cons t ts ih =>
    obtain rfl | ⟨before, rfl, hb'⟩ := List.prefix_cons_iff.mp hb
    · exact not_ends_nil
    · rw [cut?] at h
      cases hstep : enclosure.step matching depth t with
      | none =>
        rw [hstep] at h
        cases h
      | some later =>
        rw [hstep] at h
        rw [ends_cons_iff hne hstep]
        exact ih (Option.map_eq_none_iff.mp h) hb'

/-- Nothing is cut off just when no beginning ends so. -/
theorem cut?_eq_none_iff : enclosure.cut? matching depth ts = none ↔ ∀ before, before <+: ts → ¬ enclosure.Ends matching depth before := by
  refine ⟨fun h before hb => not_ends_of_cut? hne h hb, fun h => ?_⟩
  cases hcut : enclosure.cut? matching depth ts with
  | none => rfl
  | some c =>
    have hc := shortest_of_cut? hne hcut
    exact absurd hc.holds (h _ hc.isPrefix)

/-- A cut is the one that takes the shortest beginning that ends so. -/
theorem cut?_eq_some_iff {c : Cut} :
    enclosure.cut? matching depth ts = some c ↔
      c.closed ++ c.rest = ts ∧ Shortest (enclosure.Ends matching depth) c.closed ts := by
  refine ⟨fun h => ⟨cut?_append h, shortest_of_cut? hne h⟩, fun ⟨happend, hc⟩ => ?_⟩
  cases hcut : enclosure.cut? matching depth ts with
  | none => exact absurd hc.holds (not_ends_of_cut? hne hcut hc.isPrefix)
  | some d =>
    have hclosed := (shortest_of_cut? hne hcut).unique hc
    exact congrArg some (Cut.eq_of_inner ((cut?_append hcut).trans happend.symm) (Cut.inner_eq_of_closed hclosed))

/-! ## Balanced tokens -/

/-- Balanced tokens between two delimiters are cut out with them. -/
theorem cut?_enclosed {opener closer : Token} (hopener : opener.value = enclosure.opening) (hcloser : closer.value = enclosure.closing)
    {inner : List Token} (h : enclosure.Balanced inner) (rest : List Token) :
    enclosure.cut? .balanced 0 (opener :: (inner ++ closer :: rest)) = some ⟨opener :: inner, closer, rest⟩ := by
  have hopen : opener.is enclosure.opening = true := (Token.is_eq_true_iff _ _).mpr hopener
  have hclose : closer.is enclosure.closing = true := (Token.is_eq_true_iff _ _).mpr hcloser
  have hnot : opener.is enclosure.closing = false := not_is_closing hne hopen
  have hnot' : closer.is enclosure.opening = false := by simp [Token.is, hcloser, hne.symm]
  have htotals := h.totals
  refine (cut?_eq_some_iff hne).mpr ⟨by simp [Cut.closed], ⟨rest, by simp [Cut.closed]⟩, ?_, fun before hb hends => ?_⟩
  · refine ⟨⟨closer, List.getLast?_concat, hclose⟩, fun _ => ?_⟩
    simp only [Cut.closed, List.countP_append, List.countP_cons, List.countP_nil, hopen, hclose, hnot, hnot', if_true,
      Bool.false_eq_true, if_false]
    omega
  · by_contra hlt
    -- a shorter beginning stands within the opener and the balanced tokens, where more is open than closed
    have hshort : before <+: opener :: inner := by
      refine List.prefix_of_prefix_length_le hb ⟨closer :: rest, by simp⟩ ?_
      simp only [Cut.closed, List.length_append, List.length_cons, List.length_nil] at hlt ⊢
      omega
    obtain rfl | ⟨before, rfl, hbefore⟩ := List.prefix_cons_iff.mp hshort
    · exact not_ends_nil hends
    · have hcount := hends.count rfl
      have hopened := h.prefixes before hbefore
      simp only [List.countP_cons, hopen, hnot] at hcount
      simp only [if_true, Bool.false_eq_true, if_false] at hcount
      omega

/-! ## Both ways of matching -/

/-- When delimiters are not matched, the one that ends what is cut off opens nothing. -/
theorem countP_closed_lexical {c : Cut} (h : enclosure.cut? .lexical depth ts = some c) :
    c.closed.countP (·.is enclosure.opening) = c.inner.countP (·.is enclosure.opening) := by
  obtain ⟨-, hclose⟩ := closing_of_cut?_lexical h
  have hopen : c.closer.is enclosure.opening = false := Bool.eq_false_iff.mpr fun ho => by
    rw [not_is_closing hne ho] at hclose
    cases hclose
  simp [Cut.closed, hopen]

/-- What is cut off without matching the delimiters ends so when they are matched, too, just when it opens no more than one. -/
theorem ends_closed_lexical_iff {c : Cut} (h : enclosure.cut? .lexical depth ts = some c) :
    enclosure.Ends .balanced 0 c.closed ↔ c.inner.countP (·.is enclosure.opening) ≤ 1 := by
  obtain ⟨hinner, hclose⟩ := closing_of_cut?_lexical h
  have hclosed : c.closed.countP (·.is enclosure.closing) = 1 := by
    simp [Cut.closed, hclose, hinner]
  rw [ends_balanced_iff, Closes, countP_closed_lexical hne h, hclosed]
  exact and_iff_right ⟨c.closer, List.getLast?_concat, hclose⟩

/-- When matched delimiters cut something off, so do others, and what they cut off is a beginning of it. Both are the same just when no
more than one delimiter is opened. -/
theorem exists_cut?_lexical {b : Cut} (h : enclosure.cut? .balanced 0 ts = some b) :
    ∃ l, enclosure.cut? .lexical 0 ts = some l ∧ l.inner <+: b.inner ∧ l.closed <+: b.closed ∧
      (l = b ↔ l.inner.countP (·.is enclosure.opening) ≤ 1) := by
  have hb := shortest_of_cut? hne h
  cases hl : enclosure.cut? .lexical 0 ts with
  | none => exact absurd (hb.holds.lexical 0) (not_ends_of_cut? hne hl hb.isPrefix)
  | some l =>
    have hshort := shortest_of_cut? hne hl
    have hclosed : l.closed <+: b.closed := hshort.isPrefix_of_imp hb fun hends => hends.lexical 0
    have hinner : l.inner <+: b.inner := by
      refine List.prefix_of_prefix_length_le ((List.prefix_append _ _).trans hclosed) (List.prefix_append _ _) ?_
      simpa [Cut.closed] using hclosed.length_le
    refine ⟨l, rfl, hinner, hclosed, ?_⟩
    rw [← ends_closed_lexical_iff hne hl]
    refine ⟨fun heq => heq ▸ hb.holds, fun hends => ?_⟩
    have hbalanced := (cut?_eq_some_iff hne).mpr ⟨cut?_append hl, hshort.of_imp hends fun _ hends => hends.lexical 0⟩
    exact Option.some.inj (hbalanced.symm.trans h)

/-- When nothing that is cut off without matching the delimiters opens more than one, it makes no difference. -/
theorem cut?_balanced_eq_lexical
    (h : ∀ l, enclosure.cut? .lexical 0 ts = some l → l.inner.countP (·.is enclosure.opening) ≤ 1) :
    enclosure.cut? .balanced 0 ts = enclosure.cut? .lexical 0 ts := by
  cases hl : enclosure.cut? .lexical 0 ts with
  | none =>
    refine (cut?_eq_none_iff hne).mpr fun before hb hends => ?_
    exact not_ends_of_cut? hne hl hb (hends.lexical 0)
  | some l =>
    have hends := (ends_closed_lexical_iff hne hl).mpr (h l hl)
    exact (cut?_eq_some_iff hne).mpr ⟨cut?_append hl, (shortest_of_cut? hne hl).of_imp hends fun _ hends => hends.lexical 0⟩

end

end Enclosure

end LoopForest
