import LoopForest.Proofs.Parser.Grammar

/-!
# The clause at which a header is rejected

A header with three clauses is rejected at the first of them that does not have its form, and the clauses behind it are not looked at
(`Header.Rejects`). Where that clause stands among the tokens of the header is known from the clauses ahead of it
(`Header.Written.getElem?_clause`). Its error shows at the token that opens it or at the first of its own tokens, and at no other place
(`Header.Refused.exists_rejects`).

With the headers that do not have three clauses, a header that is not that of a loop is rejected at one stage and no other
(`Header.RejectedAt`).
-/

namespace LoopForest

/-- What a clause of a header is for. -/
inductive Role where
  | initialization | condition | update
  deriving DecidableEq, Repr

namespace Header

/-- The clause for this. -/
def clause (clauses : Header) : Role → Clause
  | .initialization => clauses.initialization
  | .condition => clauses.condition
  | .update => clauses.update

/-- The tokens of the clauses ahead of one, with those that open them. -/
def ahead (clauses : Header) : Role → List Token
  | .initialization => []
  | .condition => clauses.initialization.opened
  | .update => clauses.initialization.opened ++ clauses.condition.opened

/-- The first of three clauses that does not have its form. -/
inductive Rejects (lookup : Lookup) (clauses : Header) : Role → Prop where
  | initialization (h : ∀ i, ¬ Initialization.Written clauses.initialization.tokens i) : Rejects lookup clauses .initialization
  | condition {i : Initialization} (hi : Initialization.Written clauses.initialization.tokens i)
    (h : ∀ c, ¬ Condition.Written lookup clauses.condition.tokens c) : Rejects lookup clauses .condition
  | update {i : Initialization} {c : Condition} (hi : Initialization.Written clauses.initialization.tokens i)
    (hc : Condition.Written lookup clauses.condition.tokens c) (h : ∀ u, ¬ Update.Written clauses.update.tokens u) :
    Rejects lookup clauses .update

/-- There is one first clause only. -/
theorem Rejects.unique {lookup : Lookup} {clauses : Header} {role role' : Role} (h : clauses.Rejects lookup role)
    (h' : clauses.Rejects lookup role') : role = role' := by
  cases h with
  | initialization hno =>
    cases h' with
    | initialization => rfl
    | condition hi | update hi => exact absurd hi (hno _)
  | condition hi hno =>
    cases h' with
    | initialization hno' => exact absurd hi (hno' _)
    | condition => rfl
    | update _ hc => exact absurd hc (hno _)
  | update hi hc hno =>
    cases h' with
    | initialization hno' => exact absurd hi (hno' _)
    | condition _ hno' => exact absurd hc (hno' _)
    | update => rfl

/-- In a header, a clause with the token that opens it stands behind the clauses ahead of it. -/
theorem Written.exists_behind {header : List Token} {clauses : Header} (h : Written header clauses) (role : Role) :
    ∃ behind, header = clauses.ahead role ++ ((clauses.clause role).opened ++ behind) := by
  cases h
  cases role <;> simp [clause, ahead, Clause.opened]

/-- So the tokens of a clause have their numbers in the header behind those of the clauses ahead. -/
theorem Written.getElem?_clause {header : List Token} {clauses : Header} (h : Written header clauses) {role : Role} {i : Nat} {t : Token}
    (ht : (clauses.clause role).opened[i]? = some t) : header[(clauses.ahead role).length + i]? = some t := by
  obtain ⟨behind, rfl⟩ := h.exists_behind role
  have hi := (List.getElem?_eq_some_iff.mp ht).1
  rw [List.getElem?_append_right (Nat.le_add_right _ _), Nat.add_sub_cancel_left, List.getElem?_append_left hi, ht]

end Header

/-! ## Where the error of a clause shows -/

/-- The error says that a clause does not have its form. -/
def ParseError.OfClause : ParseError → Prop
  | .unsupported .. | .invalidCondition .. => True
  | .lex _ | .unterminated .. | .malformedHeader .. | .tree .. => False

/-- The error is one of this clause and shows at the token that opens it, which is number 0, or at the first of its own tokens, which is
number 1. -/
structure Clause.Shows (clause : Clause) (e : ParseError) (i : Nat) : Prop where
  ofClause : e.OfClause
  le_one : i ≤ 1
  exists_token : ∃ t, clause.opened[i]? = some t ∧ e.location = t.location

/-- The place of some tokens with which a clause begins is that of the first of them, or that of the opener. -/
theorem Clause.exists_placeOf {clause : Clause} {ts : List Token} (h : ts <+: clause.tokens) :
    ∃ i ≤ 1, ∃ t, clause.opened[i]? = some t ∧ placeOf ts clause.opener.location = t.location := by
  cases ts with
  | nil => exact ⟨0, Nat.zero_le 1, clause.opener, rfl, rfl⟩
  | cons t ts =>
    obtain ⟨rest, hrest⟩ := h
    refine ⟨1, Nat.le_refl 1, t, ?_, rfl⟩
    rw [Clause.opened, ← hrest]
    rfl

/-- An error about some tokens with which a clause begins shows in the clause. -/
theorem Clause.exists_shows {clause : Clause} {ts : List Token} {e : ParseError} (he : e.OfClause) (h : ts <+: clause.tokens)
    (hplace : e.location = placeOf ts clause.opener.location) : ∃ i, clause.Shows e i := by
  obtain ⟨i, hle, t, ht, hlocation⟩ := exists_placeOf h
  exact ⟨i, he, hle, t, ht, hplace.trans hlocation⟩

theorem Initialization.Misread.not_written {tokens : List Token} {m : Misfit} (h : Misread tokens m) (i : Initialization) :
    ¬ Written tokens i := fun hi => by
  have hread := (ofTokens_eq_ok_iff.mpr hi).symm.trans (ofTokens_eq_error_iff.mpr h)
  cases hread

theorem Condition.Misread.not_written {lookup : Lookup} {tokens : List Token} {e : ComparatorError}
    (h : Misread lookup tokens e) (c : Condition) : ¬ Written lookup tokens c := fun hc => by
  have hread := (ofTokens_eq_ok_iff.mpr hc).symm.trans (ofTokens_eq_error_iff.mpr h)
  cases hread

/-- The tokens that are reported of an initialization are those with which it begins. -/
theorem Initialization.Misread.isPrefix {tokens : List Token} {m : Misfit} (h : Misread tokens m) : m.tokens <+: tokens := by
  cases h with
  | short => exact List.prefix_refl _
  | target assign value => exact List.prefix_append _ _

/-- The error of three clauses is that of the first one that does not have its form, and shows there. -/
theorem Header.Refused.exists_rejects {lookup : Lookup} {clauses : Header} {e : ParseError} (h : clauses.Refused lookup e) :
    ∃ role i, clauses.Rejects lookup role ∧ (clauses.clause role).Shows e i := by
  cases h with
  | initialization hm =>
    obtain ⟨i, hshows⟩ := Clause.exists_shows (e := Misfit.error _ clauses.initialization.opener.location) trivial hm.isPrefix rfl
    exact ⟨.initialization, i, .initialization hm.not_written, hshows⟩
  | @condition _ cause hi hcause =>
    obtain ⟨i, hshows⟩ := Clause.exists_shows (e := .invalidCondition cause clauses.condition.place) trivial
      (List.prefix_refl clauses.condition.tokens) rfl
    exact ⟨.condition, i, .condition hi hcause.not_written, hshows⟩
  | update hi hc hno =>
    obtain ⟨i, hshows⟩ := Clause.exists_shows (e := Misfit.error ⟨"update", clauses.update.tokens⟩ clauses.update.opener.location)
      trivial (List.prefix_refl clauses.update.tokens) rfl
    exact ⟨.update, i, .update hi hc hno, hshows⟩

/-! ## Where a header is rejected -/

/-- The stage at which a header is rejected: as a whole, or at the first of its clauses that does not have its form. -/
inductive Header.RejectedAt (lookup : Lookup) (header : List Token) : Option Role → Prop where
  | header {fault : HeaderFault} (h : Misread header fault) : RejectedAt lookup header none
  | clause {clauses : Header} {role : Role} (hclauses : Written header clauses) (hrejects : clauses.Rejects lookup role) :
    RejectedAt lookup header (some role)

namespace Header

theorem Written.unique {header : List Token} {clauses clauses' : Header} (h : Written header clauses) (h' : Written header clauses') :
    clauses = clauses' :=
  Except.ok.inj ((ofTokens_eq_ok_iff.mpr h).symm.trans (ofTokens_eq_ok_iff.mpr h'))

variable {lookup : Lookup} {header : List Token} {stage stage' : Option Role}

/-- There is one stage only. -/
theorem RejectedAt.unique (h : RejectedAt lookup header stage) (h' : RejectedAt lookup header stage') : stage = stage' := by
  cases h with
  | header hfault =>
    cases h' with
    | header => rfl
    | clause hclauses => exact absurd hfault hclauses.not_misread
  | clause hclauses hrejects =>
    cases h' with
    | header hfault => exact absurd hfault hclauses.not_misread
    | clause hclauses' hrejects' =>
      obtain rfl := hclauses.unique hclauses'
      rw [hrejects.unique hrejects']

/-- What is rejected is not the header of a loop. -/
theorem RejectedAt.not_written (h : RejectedAt lookup header stage) {l : Loop} : ¬ Loop.Written lookup header l := by
  rintro ⟨hclauses, hi, hc, hu⟩
  cases h with
  | header hfault => exact hclauses.not_misread hfault
  | clause hclauses' hrejects =>
    obtain rfl := hclauses.unique hclauses'
    cases hrejects with
    | initialization hno => exact hno _ hi
    | condition _ hno => exact hno _ hc
    | update _ _ hno => exact hno _ hu

end Header

end LoopForest
