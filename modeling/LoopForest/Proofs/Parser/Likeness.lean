import LoopForest.Proofs.Forest.Wording
import LoopForest.Proofs.Parser.Comparison
import LoopForest.Proofs.Parser.Lockstep

/-!
# Reading alike tokens

Two lists of tokens have the same texts, index by index; kinds and places may differ. A token of the first list and one of the second are
alike when they stand at the same index (`Token.Alike`). Whatever a parser cuts or reads, it looks at texts alone: alike tokens are cut at
the same index, split into the same clauses and read into parts of a loop that say the same, or refused for the same reason. The error
then shows at alike tokens (`ParseError.Alike`), because it always shows at a token. Only the words in which a malformed header is
reported may differ, since they name the kind of a token.

What is read says the same when its bare form is the same. For a condition this supposes that the lookup goes by texts, too
(`Lookup.ByText`), as the one for relational operators does.
-/

namespace LoopForest

/-! ## What is alike -/

/-- Tokens with the same text at the same index of two lists. -/
structure Token.Alike (all all' : List Token) (t t' : Token) : Prop where
  value_eq : t.value = t'.value
  index : ∃ i : Nat, all[i]? = some t ∧ all'[i]? = some t'

/-- Cuts at the same index. -/
structure Enclosure.Cut.Alike (all all' : List Token) (c c' : Enclosure.Cut) : Prop where
  inner : List.Forall₂ (Token.Alike all all') c.inner c'.inner
  closer : c.closer.Alike all all' c'.closer
  rest : List.Forall₂ (Token.Alike all all') c.rest c'.rest

/-- Clauses of alike tokens. -/
structure Clause.Alike (all all' : List Token) (c c' : Clause) : Prop where
  opener : c.opener.Alike all all' c'.opener
  tokens : List.Forall₂ (Token.Alike all all') c.tokens c'.tokens

/-- Headers of alike clauses. -/
structure Header.Alike (all all' : List Token) (h h' : Header) : Prop where
  initialization : h.initialization.Alike all all' h'.initialization
  condition : h.condition.Alike all all' h'.condition
  update : h.update.Alike all all' h'.update

/-- Headers with the same fault at alike tokens. -/
inductive HeaderFault.Alike (all all' : List Token) : HeaderFault → HeaderFault → Prop where
  | empty : HeaderFault.Alike all all' .empty .empty
  | unopened {t t' : Token} (h : t.Alike all all' t') : HeaderFault.Alike all all' (.unopened t) (.unopened t')
  | clauseCount {t t' : Token} {count : Nat} (h : t.Alike all all' t') :
    HeaderFault.Alike all all' (.clauseCount t count) (.clauseCount t' count)

/-- Alike tokens that are not the same expression. -/
structure Misfit.Alike (all all' : List Token) (m m' : Misfit) : Prop where
  expression_eq : m.expression = m'.expression
  tokens : List.Forall₂ (Token.Alike all all') m.tokens m'.tokens

/-- Errors that tell the same and show at alike tokens. Those about a malformed header may say it in other words. -/
inductive ParseError.Alike (all all' : List Token) : ParseError → ParseError → Prop where
  | unterminated {enclosure : Enclosure} {t t' : Token} (h : t.Alike all all' t') :
    ParseError.Alike all all' (.unterminated enclosure t.location) (.unterminated enclosure t'.location)
  | malformedHeader {reason reason' : String} {t t' : Token} (h : t.Alike all all' t') :
    ParseError.Alike all all' (.malformedHeader reason t.location) (.malformedHeader reason' t'.location)
  | unsupported {expression found : String} {t t' : Token} (h : t.Alike all all' t') :
    ParseError.Alike all all' (.unsupported expression found t.location) (.unsupported expression found t'.location)
  | invalidCondition {source : ComparatorError} {t t' : Token} (h : t.Alike all all' t') :
    ParseError.Alike all all' (.invalidCondition source t.location) (.invalidCondition source t'.location)

/-- What the lookup answers depends on the texts alone. -/
def Lookup.ByText (lookup : Lookup) : Prop :=
  ∀ xs xs' : List Token, xs.map (·.value) = xs'.map (·.value) → lookup xs = lookup xs'

theorem Lookup.byText_relational : relational.ByText := by
  intro xs xs' h
  have hcount : xs.countP Token.isRelational = xs'.countP Token.isRelational := by
    have hvalues := congrArg (List.countP relationalOperators.contains) h
    rwa [List.countP_map, List.countP_map] at hvalues
  have hindex : xs.findIdx Token.isRelational = xs'.findIdx Token.isRelational := by
    have hvalues := congrArg (List.findIdx relationalOperators.contains) h
    rwa [List.findIdx_map, List.findIdx_map] at hvalues
  rw [relational_eq_countP, hcount, hindex, relational_eq_countP]

/-! ## What is read, without places -/

/-- A variable without its place. -/
def Target.bare (t : Target) : Target := { t with location := default }

/-- An initialization without its place. -/
def Initialization.bare (i : Initialization) : Initialization := { i with target := i.target.bare }

/-- A condition of bare tokens. -/
def Condition.bare (c : Condition) : Condition := ⟨c.left.map Token.bare, c.comparator.bare, c.right.map Token.bare⟩

/-- An update without its place. -/
def Update.bare (u : Update) : Update := { u with location := default }

/-- A loop of bare parts. -/
def Loop.bare (l : Loop) : Loop := ⟨l.initialization.bare, l.condition.bare, default, l.update.bare⟩

/-! ## Cutting -/

section

variable {all all' xs xs' : List Token}

namespace Token.Alike

variable {t t' : Token} (h : t.Alike all all' t')

include h

theorem is_eq (text : String) : t.is text = t'.is text := by
  rw [Token.is, h.value_eq, Token.is]

theorem bare_eq : t.bare = t'.bare := by
  rw [Token.bare, h.value_eq, Token.bare]

end Token.Alike

/-- The tokens of two lists with the same texts are alike, index by index. -/
theorem alike_of_values (h : all.map (·.value) = all'.map (·.value)) : List.Forall₂ (Token.Alike all all') all all' := by
  have hlength : all.length = all'.length := by
    rw [← List.length_map (·.value), h, List.length_map]
  refine List.forall₂_iff_get.mpr ⟨hlength, fun i hi hi' => ⟨?_, i, ?_, ?_⟩⟩
  · have hvalue : (all.map (·.value))[i]? = (all'.map (·.value))[i]? := congrArg (·[i]?) h
    rw [List.getElem?_map, List.getElem?_map, List.getElem?_eq_getElem hi, List.getElem?_eq_getElem hi'] at hvalue
    exact Option.some.inj hvalue
  · exact List.getElem?_eq_getElem hi
  · exact List.getElem?_eq_getElem hi'

theorem values_eq (h : List.Forall₂ (Token.Alike all all') xs xs') : xs.map (·.value) = xs'.map (·.value) := by
  induction h with
  | nil => rfl
  | cons h _ ih => rw [List.map_cons, List.map_cons, h.value_eq, ih]

theorem map_bare_eq (h : List.Forall₂ (Token.Alike all all') xs xs') : xs.map Token.bare = xs'.map Token.bare := by
  induction h with
  | nil => rfl
  | cons h _ ih => rw [List.map_cons, List.map_cons, h.bare_eq, ih]

/-- The last ones of alike tokens are alike. -/
theorem alike_getLast {t t' : Token} (ht : t.Alike all all' t') (h : List.Forall₂ (Token.Alike all all') xs xs') :
    (xs.getLast?.getD t).Alike all all' (xs'.getLast?.getD t') := by
  induction h generalizing t t' with
  | nil => exact ht
  | cons h _ ih =>
    rw [List.getLast?_cons, List.getLast?_cons]
    exact ih h

/-- Where an error about alike tokens shows there are alike tokens, too. -/
theorem exists_alike_placeOf {opener opener' : Token} (ho : opener.Alike all all' opener')
    (h : List.Forall₂ (Token.Alike all all') xs xs') :
    ∃ t t' : Token, t.Alike all all' t' ∧ placeOf xs opener.location = t.location ∧ placeOf xs' opener'.location = t'.location := by
  cases h with
  | nil => exact ⟨opener, opener', ho, rfl, rfl⟩
  | cons h _ => exact ⟨_, _, h, rfl, rfl⟩

theorem Enclosure.step_eq {t t' : Token} (h : t.Alike all all' t') (enclosure : Enclosure) (matching : Matching) (depth : Nat) :
    enclosure.step matching depth t = enclosure.step matching depth t' := by
  cases matching <;> simp only [step, h.is_eq]

/-- Alike tokens are cut at the same index, or neither can be cut. -/
theorem Enclosure.alike_cut? (enclosure : Enclosure) (matching : Matching) (depth : Nat)
    (h : List.Forall₂ (Token.Alike all all') xs xs') :
    Option.Rel (Cut.Alike all all') (enclosure.cut? matching depth xs) (enclosure.cut? matching depth xs') := by
  induction h generalizing depth with
  | nil => exact .none
  | @cons t t' ts ts' h hs ih =>
    rw [cut?, cut?, enclosure.step_eq h]
    cases enclosure.step matching depth t' with
    | none => exact .some ⟨.nil, h, hs⟩
    | some depth =>
      have hcut := ih depth
      revert hcut
      dsimp only
      generalize enclosure.cut? matching depth ts = cut, enclosure.cut? matching depth ts' = cut'
      rintro (hc | -)
      · exact .some ⟨.cons h hc.inner, hc.closer, hc.rest⟩
      · exact .none

theorem Enclosure.cut?_eq_none_of_alike {enclosure : Enclosure} {matching : Matching} {depth : Nat}
    (h : List.Forall₂ (Token.Alike all all') xs xs') (hcut : enclosure.cut? matching depth xs = none) :
    enclosure.cut? matching depth xs' = none := by
  have hrel := enclosure.alike_cut? matching depth h
  rw [hcut] at hrel
  generalize enclosure.cut? matching depth xs' = cut' at hrel
  cases hrel
  rfl

theorem Enclosure.exists_alike_cut? {enclosure : Enclosure} {matching : Matching} {depth : Nat} {cut : Cut}
    (h : List.Forall₂ (Token.Alike all all') xs xs') (hcut : enclosure.cut? matching depth xs = some cut) :
    ∃ cut', enclosure.cut? matching depth xs' = some cut' ∧ cut.Alike all all' cut' := by
  have hrel := enclosure.alike_cut? matching depth h
  rw [hcut] at hrel
  generalize enclosure.cut? matching depth xs' = cut' at hrel
  cases hrel with
  | some halike => exact ⟨_, rfl, halike⟩

theorem Enclosure.Cut.Alike.closed {c c' : Enclosure.Cut} (h : c.Alike all all' c') :
    List.Forall₂ (Token.Alike all all') c.closed c'.closed :=
  List.rel_append h.inner (.cons h.closer .nil)

/-- Alike tokens are split into alike clauses. -/
theorem alike_splitClauses {opener opener' : Token} (ho : opener.Alike all all' opener')
    (h : List.Forall₂ (Token.Alike all all') xs xs') :
    List.Forall₂ (Clause.Alike all all') (splitClauses opener xs) (splitClauses opener' xs') := by
  induction h generalizing opener opener' with
  | nil => exact .nil
  | @cons t t' ts ts' h hs ih =>
    rw [splitClauses, splitClauses, h.is_eq]
    split
    · exact .cons ⟨ho, .nil⟩ (ih h)
    · have hclauses := ih ho
      revert hclauses
      generalize splitClauses opener ts = clauses, splitClauses opener' ts' = clauses'
      rintro (_ | ⟨hc, hcs⟩)
      · exact .cons ⟨ho, .cons h .nil⟩ .nil
      · exact .cons ⟨hc.opener, .cons h hc.tokens⟩ hcs

/-- Alike tokens are headers of alike clauses, or have the same fault. -/
theorem Header.alike_ofTokens (h : List.Forall₂ (Token.Alike all all') xs xs') :
    Parallel (HeaderFault.Alike all all') (Header.Alike all all') (ofTokens xs) (ofTokens xs') := by
  cases h with
  | nil => exact .error .empty
  | @cons t t' ts ts' h hs =>
    rw [ofTokens, ofTokens, h.is_eq]
    split
    · have hclauses := alike_splitClauses h hs
      revert hclauses
      generalize splitClauses t ts = clauses, splitClauses t' ts' = clauses'
      rintro (_ | ⟨hi, _ | ⟨hc, _ | ⟨hu, _ | ⟨hmore, hs⟩⟩⟩⟩)
      · exact .error (.clauseCount h)
      · exact .error (.clauseCount h)
      · exact .error (.clauseCount h)
      · exact .ok ⟨hi, hc, hu⟩
      · simp only [List.length_cons, hs.length_eq]
        exact .error (.clauseCount h)
    · exact .error (.unopened h)

/-! ## Reading -/

/-- Alike tokens are variables that say the same, or are refused as the same misfit. -/
theorem Target.alike_ofTokens (h : List.Forall₂ (Token.Alike all all') xs xs') :
    Parallel (Misfit.Alike all all') (fun t t' : Target => t.bare = t'.bare) (ofTokens xs) (ofTokens xs') := by
  obtain _ | ⟨hfirst, _ | ⟨hsecond, _ | ⟨hthird, hs⟩⟩⟩ := h
  · exact .error ⟨rfl, .nil⟩
  · exact .ok (by simp only [bare, hfirst.value_eq])
  · exact .ok (by simp only [bare, hfirst.value_eq, hsecond.value_eq])
  · exact .error ⟨rfl, .cons hfirst (.cons hsecond (.cons hthird hs))⟩

theorem Initialization.alike_ofTokens (h : List.Forall₂ (Token.Alike all all') xs xs') :
    Parallel (Misfit.Alike all all') (fun i i' : Initialization => i.bare = i'.bare) (ofTokens xs) (ofTokens xs') := by
  have hreverse := List.rel_reverse h
  unfold ofTokens
  revert hreverse
  generalize xs.reverse = backwards, xs'.reverse = backwards'
  rintro (_ | ⟨hvalue, _ | ⟨hassign, htarget⟩⟩)
  · exact .error ⟨rfl, h⟩
  · exact .error ⟨rfl, h⟩
  · obtain ⟨_, _, hread, hread', htarget⟩ | ⟨_, _, hread, hread', hmisfit⟩ :=
      (Target.alike_ofTokens (List.rel_reverse htarget)).exists_eq
    · simp only [hread, hread']
      exact .ok (by simp only [bare, htarget, hvalue.value_eq])
    · simp only [hread, hread']
      exact .error hmisfit

theorem Condition.alike_ofTokens {lookup : Lookup} (hlookup : lookup.ByText) (h : List.Forall₂ (Token.Alike all all') xs xs') :
    Parallel Eq (fun c c' : Condition => c.bare = c'.bare) (ofTokens lookup xs) (ofTokens lookup xs') := by
  have hbare := map_bare_eq h
  rw [ofTokens, ofTokens, hlookup xs xs' (values_eq h), h.length_eq]
  cases lookup xs' with
  | error e => exact .error rfl
  | ok index =>
    have hcomparator : xs[index]?.map Token.bare = xs'[index]?.map Token.bare := by
      rw [← List.getElem?_map, ← List.getElem?_map, hbare]
    dsimp only
    cases hc : xs[index]? <;> cases hc' : xs'[index]? <;> rw [hc, hc'] at hcomparator
    · exact .error rfl
    · cases hcomparator
    · cases hcomparator
    · have hleft : (xs.take index).map Token.bare = (xs'.take index).map Token.bare := by
        rw [List.map_take, hbare, List.map_take]
      have hright : (xs.drop (index + 1)).map Token.bare = (xs'.drop (index + 1)).map Token.bare := by
        rw [List.map_drop, hbare, List.map_drop]
      exact .ok (by simp only [bare, hleft, hright, Option.some.inj hcomparator])

theorem Update.alike_ofTokens (h : List.Forall₂ (Token.Alike all all') xs xs') :
    Parallel (Misfit.Alike all all') (fun u u' : Update => u.bare = u'.bare) (ofTokens xs) (ofTokens xs') := by
  have hmisfit : Misfit.Alike all all' ⟨"update", xs⟩ ⟨"update", xs'⟩ := ⟨rfl, h⟩
  obtain _ | ⟨htarget, _ | ⟨hstep, _ | ⟨hvalue, _ | ⟨hmore, hs⟩⟩⟩⟩ := h
  · exact .error hmisfit
  · simp only [ofTokens, htarget.value_eq]
    split
    · exact .ok rfl
    · exact .error hmisfit
  · simp only [ofTokens, htarget.value_eq, hstep.value_eq]
    split
    · exact .ok rfl
    · exact .error hmisfit
  · simp only [ofTokens, htarget.value_eq, hstep.value_eq, hvalue.value_eq]
    split
    · exact .ok rfl
    · exact .error hmisfit
  · exact .error hmisfit

/-! ## Errors -/

theorem Misfit.Alike.found_eq {m m' : Misfit} (h : m.Alike all all' m') : m.found = m'.found := by
  have hempty : m.tokens.isEmpty = m'.tokens.isEmpty := by
    rw [← List.isEmpty_map (f := Token.value), values_eq h.tokens, List.isEmpty_map]
  rw [found, found, hempty, h.tokens.length_eq, Token.joined, Token.joined, values_eq h.tokens]

theorem Misfit.Alike.error {m m' : Misfit} (h : m.Alike all all' m') {opener opener' : Token}
    (ho : opener.Alike all all' opener') : (m.error opener.location).Alike all all' (m'.error opener'.location) := by
  obtain ⟨t, t', ht, hplace, hplace'⟩ := exists_alike_placeOf ho h.tokens
  rw [Misfit.error, Misfit.error, h.expression_eq, h.found_eq, hplace, hplace']
  exact .unsupported ht

/-- Headers with the same fault give alike errors when their keywords are alike. -/
theorem HeaderFault.Alike.error {fault fault' : HeaderFault} (h : fault.Alike all all' fault') {keyword keyword' : Token}
    (hk : keyword.Alike all all' keyword') :
    ((LoopFault.header fault).error keyword.location).Alike all all' ((LoopFault.header fault').error keyword'.location) := by
  cases h with
  | empty => exact .malformedHeader hk
  | unopened h => exact .malformedHeader h
  | clauseCount h => exact .malformedHeader h

/-! ## Clauses and loops -/

namespace Clause.Alike

variable {c c' : Clause} (h : c.Alike all all' c')

include h

theorem initialization :
    Parallel (ParseError.Alike all all') (fun i i' : Initialization => i.bare = i'.bare) c.initialization c'.initialization :=
  (Initialization.alike_ofTokens h.tokens).mapError fun _ _ hm => hm.error h.opener

theorem condition {lookup : Lookup} (hlookup : lookup.ByText) :
    Parallel (ParseError.Alike all all') (fun i i' : Condition => i.bare = i'.bare) (c.condition lookup) (c'.condition lookup) := by
  refine (Condition.alike_ofTokens hlookup h.tokens).mapError fun e e' he => ?_
  obtain ⟨t, t', ht, hplace, hplace'⟩ := exists_alike_placeOf h.opener h.tokens
  rw [Clause.place, Clause.place, hplace, hplace', he]
  exact .invalidCondition ht

theorem update : Parallel (ParseError.Alike all all') (fun u u' : Update => u.bare = u'.bare) c.update c'.update :=
  (Update.alike_ofTokens h.tokens).mapError fun _ _ hm => hm.error h.opener

end Clause.Alike

/-- Alike tokens are headers of loops that say the same, or give alike errors. -/
theorem Loop.alike_ofHeader {lookup : Lookup} (hlookup : lookup.ByText) (h : List.Forall₂ (Token.Alike all all') xs xs')
    {keyword keyword' : Token} (hk : keyword.Alike all all' keyword') :
    Parallel (fun fault fault' : LoopFault => (fault.error keyword.location).Alike all all' (fault'.error keyword'.location))
      (fun l l' : Loop => l.bare = l'.bare) (ofHeader lookup xs) (ofHeader lookup xs') := by
  obtain ⟨c, c', hc, hc', hclauses⟩ | ⟨fault, fault', hc, hc', hfault⟩ := (Header.alike_ofTokens h).exists_eq
  · obtain ⟨i, i', hi, hi', hinit⟩ | ⟨e, e', hi, hi', he⟩ := hclauses.initialization.initialization.exists_eq
    · obtain ⟨d, d', hd, hd', hcond⟩ | ⟨e, e', hd, hd', he⟩ := (hclauses.condition.condition hlookup).exists_eq
      · obtain ⟨u, u', hu, hu', hupdate⟩ | ⟨e, e', hu, hu', he⟩ := hclauses.update.update.exists_eq
        · simp only [ofHeader, hc, hc', hi, hi', hd, hd', hu, hu']
          exact .ok (by simp only [bare, hinit, hcond, hupdate])
        · simp only [ofHeader, hc, hc', hi, hi', hd, hd', hu, hu']
          exact .error he
      · simp only [ofHeader, hc, hc', hi, hi', hd, hd']
        exact .error he
    · simp only [ofHeader, hc, hc', hi, hi']
      exact .error he
  · simp only [ofHeader, hc, hc']
    exact .error (hfault.error hk)

end

end LoopForest
