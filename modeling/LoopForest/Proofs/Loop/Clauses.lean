import LoopForest.Loop.Header

/-!
# Clauses and the tokens they are cut from

Tokens are cut into clauses in one way only. `Clauses opener ts clauses` says without the function that cuts how the clauses lie in the
tokens: a semicolon ends a clause, with or without tokens in it, and what stands behind the last semicolon is a clause when there is
anything. `splitClauses_eq_iff` says that `splitClauses` finds these clauses.

So no token is lost: the clauses with their openers, put end to end, are the tokens with their opener, but for a semicolon at the end
(`splitClauses_lossless`). The number of clauses is that of the semicolons, and one more when tokens stand behind the last of them.
-/

namespace LoopForest

/-- No token is a semicolon. -/
def NoSemicolon (ts : List Token) : Prop := ∀ t ∈ ts, t.is ";" = false

/-- How clauses lie in the tokens behind `opener`. -/
inductive Clauses : Token → List Token → List Clause → Prop where
  /-- Without tokens there is no clause. -/
  | none {opener : Token} : Clauses opener [] []
  /-- Tokens without a semicolon are one clause. -/
  | last {opener : Token} {ts : List Token} (hne : ts ≠ []) (hts : NoSemicolon ts) : Clauses opener ts [⟨opener, ts⟩]
  /-- A semicolon ends a clause and opens what comes behind it. -/
  | ended {opener t : Token} {current rest : List Token} {clauses : List Clause} (hcurrent : NoSemicolon current) (ht : t.is ";" = true)
    (h : Clauses t rest clauses) : Clauses opener (current ++ t :: rest) (⟨opener, current⟩ :: clauses)

/-- A clause with the token that opens it. -/
def Clause.opened (c : Clause) : List Token := c.opener :: c.tokens

/-- No clause is open behind the tokens: there are none, or the last one is a semicolon. -/
def NoneOpen (ts : List Token) : Prop := ∀ t ∈ ts.getLast?, t.is ";" = true

instance (ts : List Token) : Decidable (NoneOpen ts) := inferInstanceAs (Decidable (∀ t ∈ ts.getLast?, t.is ";" = true))

/-- Tokens without a semicolon leave their clause open. -/
theorem NoSemicolon.not_noneOpen {ts : List Token} (h : NoSemicolon ts) (hne : ts ≠ []) : ¬ NoneOpen ts := by
  intro hnone
  have hlast := List.getLast?_eq_some_getLast hne
  have hsemicolon := hnone _ hlast
  rw [h _ (List.getLast_mem hne)] at hsemicolon
  cases hsemicolon

/-- What is open behind a semicolon is open behind what comes after it. -/
theorem noneOpen_append_cons {t : Token} (ht : t.is ";" = true) (current rest : List Token) :
    NoneOpen (current ++ t :: rest) ↔ NoneOpen rest := by
  cases rest with
  | nil => simpa [NoneOpen] using ht
  | cons u rest => simp [NoneOpen]

/-! ## Cutting -/

/-- Tokens before a semicolon are one clause. -/
theorem splitClauses_append {opener t : Token} {current : List Token} (h : NoSemicolon current) (ht : t.is ";" = true)
    (rest : List Token) : splitClauses opener (current ++ t :: rest) = ⟨opener, current⟩ :: splitClauses t rest := by
  induction current with
  | nil => rw [List.nil_append, splitClauses, if_pos ht]
  | cons u current ih =>
    obtain ⟨hu, hopen⟩ := List.forall_mem_cons.mp h
    rw [List.cons_append, splitClauses, hu, ih hopen]
    rfl

/-- Tokens behind the last semicolon are one clause, if there are any. -/
theorem splitClauses_last {opener : Token} {current : List Token} (h : NoSemicolon current) :
    splitClauses opener current = if current.isEmpty then [] else [⟨opener, current⟩] := by
  induction current with
  | nil => rfl
  | cons u current ih =>
    obtain ⟨hu, hopen⟩ := List.forall_mem_cons.mp h
    rw [splitClauses, hu, ih hopen]
    cases current <;> rfl

/-- Clauses that lie in the tokens are found. -/
theorem Clauses.splitClauses_eq {opener : Token} {ts : List Token} {clauses : List Clause} (h : Clauses opener ts clauses) :
    splitClauses opener ts = clauses := by
  induction h with
  | none => rfl
  | last hne hts => rw [splitClauses_last hts, List.isEmpty_eq_false_iff.mpr hne]; rfl
  | ended hcurrent ht _ ih => rw [splitClauses_append hcurrent ht, ih]

/-- What is found lies in the tokens. -/
theorem clauses_splitClauses (opener : Token) (ts : List Token) : Clauses opener ts (splitClauses opener ts) := by
  fun_induction splitClauses opener ts with
  | case1 => exact .none
  | case2 opener t ts hsemicolon ih => exact (Clauses.ended nofun hsemicolon ih : Clauses opener ([] ++ t :: ts) _)
  | case3 opener t ts hsemicolon hnone ih =>
    rw [hnone] at ih
    cases ih
    exact .last (List.cons_ne_nil t []) (List.forall_mem_singleton.mpr (Bool.eq_false_iff.mpr hsemicolon))
  | case4 opener t ts hsemicolon clause clauses heq ih =>
    rw [heq] at ih
    have ht : t.is ";" = false := Bool.eq_false_iff.mpr hsemicolon
    cases ih with
    | last hne hts => exact .last (List.cons_ne_nil t ts) (List.forall_mem_cons.mpr ⟨ht, hts⟩)
    | ended hcurrent hend h => exact .ended (List.forall_mem_cons.mpr ⟨ht, hcurrent⟩) hend h

/-- The clauses of some tokens are those that lie in them. -/
theorem splitClauses_eq_iff {opener : Token} {ts : List Token} {clauses : List Clause} :
    splitClauses opener ts = clauses ↔ Clauses opener ts clauses :=
  ⟨fun h => h ▸ clauses_splitClauses opener ts, Clauses.splitClauses_eq⟩

/-! ## What the clauses keep -/

namespace Clauses

variable {opener : Token} {ts : List Token} {clauses : List Clause} (h : Clauses opener ts clauses)

include h

/-- The clauses with their openers are the tokens with theirs, but for the semicolon behind which nothing is open. -/
theorem flatMap_opened :
    clauses.flatMap Clause.opened ++
      (if NoneOpen ts then [(opener :: ts).getLast (List.cons_ne_nil opener ts)] else []) = opener :: ts := by
  induction h with
  | none => rfl
  | last hne hts => simp [hts.not_noneOpen hne, Clause.opened]
  | @ended opener t current rest clauses hcurrent ht _ ih =>
    have hlast : (opener :: (current ++ t :: rest)).getLast (List.cons_ne_nil _ _) =
        (t :: rest).getLast (List.cons_ne_nil t rest) := by
      rw [List.getLast_cons (by simp), List.getLast_append_of_ne_nil _ (List.cons_ne_nil t rest)]
    simp only [List.flatMap_cons, List.append_assoc, hlast, noneOpen_append_cons ht, ih]
    rfl

theorem noSemicolon : ∀ c ∈ clauses, NoSemicolon c.tokens := by
  induction h with
  | none => exact nofun
  | last _ hts => exact List.forall_mem_singleton.mpr hts
  | ended hcurrent _ _ ih => exact List.forall_mem_cons.mpr ⟨hcurrent, ih⟩

/-- The first clause stands behind the opener. -/
theorem opener_head : ∀ c ∈ clauses.head?, c.opener = opener := by
  cases h <;> simp

/-- Each clause but the first stands behind a semicolon. -/
theorem opener_tail : ∀ c ∈ clauses.tail, c.opener.is ";" = true := by
  induction h with
  | none => exact nofun
  | last => exact nofun
  | @ended opener t current rest clauses hcurrent ht h ih =>
    cases clauses with
    | nil => exact nofun
    | cons first clauses =>
      refine List.forall_mem_cons.mpr ⟨?_, ih⟩
      rw [h.opener_head first rfl, ht]

/-- The last clause has tokens, unless a semicolon stands last. -/
theorem exists_semicolon_of_last : ∀ c ∈ clauses.getLast?, c.tokens = [] → ∃ t ∈ ts.getLast?, t.is ";" = true := by
  induction h with
  | none => exact nofun
  | last hne hts =>
    rintro c hc hempty
    obtain rfl := Option.some.inj hc
    exact absurd hempty hne
  | @ended opener t current rest clauses hcurrent ht h ih =>
    rintro c hc hempty
    cases h with
    | none => exact ⟨t, by simp, ht⟩
    | last | ended =>
      rw [List.getLast?_cons_cons] at hc
      obtain ⟨u, hu, hsemicolon⟩ := ih c hc hempty
      refine ⟨u, ?_, hsemicolon⟩
      rw [List.getLast?_append, List.getLast?_cons, hu]
      rfl

theorem length_eq : clauses.length = ts.countP (·.is ";") + if NoneOpen ts then 0 else 1 := by
  induction h with
  | none => rfl
  | last hne hts =>
    have hcount := List.countP_eq_zero.mpr fun t ht => Bool.eq_false_iff.mp (hts t ht)
    rw [if_neg (hts.not_noneOpen hne), hcount, List.length_singleton]
  | ended hcurrent ht _ ih =>
    have hcount := List.countP_eq_zero.mpr fun t ht => Bool.eq_false_iff.mp (hcurrent t ht)
    simp only [List.length_cons, ih, noneOpen_append_cons ht, List.countP_append, hcount, List.countP_cons, ht, if_true]
    omega

end Clauses

/-- Cutting loses nothing. The clauses with their openers, put end to end, are the tokens with theirs, but for the last of these when no
clause is open behind it. No clause holds a semicolon. The first one stands behind the opener and every other one behind a semicolon. The
last one is without tokens only when a semicolon stands last. There is one clause for each semicolon, and another one when tokens stand
behind the last of them. -/
theorem splitClauses_lossless (opener : Token) (ts : List Token) :
    let clauses := splitClauses opener ts
    clauses.flatMap Clause.opened ++
        (if NoneOpen ts then [(opener :: ts).getLast (List.cons_ne_nil opener ts)] else []) = opener :: ts ∧
      (∀ c ∈ clauses, NoSemicolon c.tokens) ∧
      (∀ c ∈ clauses.head?, c.opener = opener) ∧
      (∀ c ∈ clauses.tail, c.opener.is ";" = true) ∧
      (∀ c ∈ clauses.getLast?, c.tokens = [] → ∃ t ∈ ts.getLast?, t.is ";" = true) ∧
      clauses.length = ts.countP (·.is ";") + if NoneOpen ts then 0 else 1 := by
  have h := clauses_splitClauses opener ts
  exact ⟨h.flatMap_opened, h.noSemicolon, h.opener_head, h.opener_tail, h.exists_semicolon_of_last, h.length_eq⟩

/-- A clause with a token, and one without, behind which stands a semicolon. -/
theorem splitClauses_lossless_emptyLast :
    let opener : Token := ⟨.punctuation, "(", ⟨1, 4⟩⟩
    let name : Token := ⟨.identifier, "i", ⟨1, 5⟩⟩
    let first : Token := ⟨.punctuation, ";", ⟨1, 6⟩⟩
    let second : Token := ⟨.punctuation, ";", ⟨1, 7⟩⟩
    let clauses := splitClauses opener [name, first, second]
    clauses = [⟨opener, [name]⟩, ⟨first, []⟩] ∧ NoneOpen [name, first, second] ∧
      clauses.flatMap Clause.opened ++ [second] = [opener, name, first, second] ∧
      NoSemicolon [name] ∧ first.is ";" = true ∧ (∃ t ∈ [name, first, second].getLast?, t.is ";" = true) ∧
      clauses.length = [name, first, second].countP (·.is ";") := by
  intro opener name first second clauses
  obtain ⟨happend, hnone, hhead, htail, hlast, hlength⟩ := splitClauses_lossless opener [name, first, second]
  have hclauses : clauses = [⟨opener, [name]⟩, ⟨first, []⟩] := by decide
  have hended : NoneOpen [name, first, second] := by decide
  rw [if_pos hended] at happend hlength
  exact ⟨hclauses, hended, happend, hnone ⟨opener, [name]⟩ (by decide), htail ⟨first, []⟩ (by decide),
    hlast ⟨first, []⟩ (by decide) rfl, hlength⟩

end LoopForest
