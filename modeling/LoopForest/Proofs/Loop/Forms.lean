import LoopForest.Loop.Clause
import LoopForest.Proofs.Loop.Clauses
import Mathlib.Data.List.Basic

/-!
# How a header and its clauses are written

The functions that read take tokens apart. Here the same is said the other way round: what the tokens are when they say something. There
are two forms of an initialization, three of an update, and a condition takes the form its lookup gives it. A header is a parenthesis and
three clauses between semicolons, with or without a semicolon behind the last.

Reading finds these forms and no other (`Initialization.ofTokens_eq_ok_iff`, `Condition.ofTokens_eq_ok_iff`,
`Update.ofTokens_eq_ok_iff`, `Header.ofTokens_eq_ok_iff`). Tokens in none of them are refused, and it is known with which report.
-/

namespace LoopForest

/-! ## Initialization -/

/-- The forms of an initialization. The token before the value may be any. -/
inductive Initialization.Written : List Token → Initialization → Prop where
  /-- The variable is declared with a type. -/
  | declared (type name assign value : Token) :
    Written [type, name, assign, value] ⟨⟨name.value, some type.value, type.location⟩, value.value⟩
  /-- The variable is only named. -/
  | named (name assign value : Token) : Written [name, assign, value] ⟨⟨name.value, none, name.location⟩, value.value⟩

/-- Why tokens are no initialization: they are too few for a value and the token before it, or those before these are no variable. -/
inductive Initialization.Misread : List Token → Misfit → Prop where
  | short {tokens : List Token} (h : tokens.length < 2) : Misread tokens ⟨"assignment", tokens⟩
  | target {target : List Token} (assign value : Token) (h : target.length ≠ 1 ∧ target.length ≠ 2) :
    Misread (target ++ [assign, value]) ⟨"variable", target⟩

theorem Target.ofTokens_eq_error_iff {tokens : List Token} {m : Misfit} :
    Target.ofTokens tokens = .error m ↔ (tokens.length ≠ 1 ∧ tokens.length ≠ 2) ∧ m = ⟨"variable", tokens⟩ := by
  rcases tokens with - | ⟨a, - | ⟨b, - | ⟨c, cs⟩⟩⟩ <;> simp [Target.ofTokens, eq_comm]

namespace Initialization

/-- Tokens are too few, or the last two of them stand behind some others. -/
theorem short_or_concat (tokens : List Token) : tokens.length < 2 ∨ ∃ target assign value, tokens = target ++ [assign, value] := by
  rcases List.eq_nil_or_concat tokens with rfl | ⟨init, value, rfl⟩
  · exact Or.inl (by decide)
  · rcases List.eq_nil_or_concat init with rfl | ⟨target, assign, rfl⟩
    · exact Or.inl Nat.one_lt_two
    · exact Or.inr ⟨target, assign, value, by simp⟩

theorem ofTokens_of_short {tokens : List Token} (h : tokens.length < 2) : ofTokens tokens = .error ⟨"assignment", tokens⟩ := by
  rcases tokens with - | ⟨a, - | ⟨b, ts⟩⟩
  · rfl
  · rfl
  · simp only [List.length_cons] at h
    omega

theorem ofTokens_concat (target : List Token) (assign value : Token) :
    ofTokens (target ++ [assign, value]) =
      match Target.ofTokens target with
      | .ok target => .ok ⟨target, value.value⟩
      | .error misfit => .error misfit := by
  cases htarget : Target.ofTokens target <;> simp [ofTokens, htarget]

theorem ofTokens_eq_ok_iff {tokens : List Token} {i : Initialization} : ofTokens tokens = .ok i ↔ Written tokens i := by
  constructor
  · intro h
    rcases short_or_concat tokens with hshort | ⟨target, assign, value, rfl⟩
    · rw [ofTokens_of_short hshort] at h
      cases h
    · rw [ofTokens_concat] at h
      split at h
      · next read htarget =>
        obtain rfl := Except.ok.inj h
        unfold Target.ofTokens at htarget
        split at htarget
        · next type name =>
          obtain rfl := Except.ok.inj htarget
          exact .declared type name assign value
        · next name =>
          obtain rfl := Except.ok.inj htarget
          exact .named name assign value
        · cases htarget
      · cases h
  · intro h
    cases h <;> rfl

theorem ofTokens_eq_error_iff {tokens : List Token} {m : Misfit} : ofTokens tokens = .error m ↔ Misread tokens m := by
  constructor
  · intro h
    rcases short_or_concat tokens with hshort | ⟨target, assign, value, rfl⟩
    · rw [ofTokens_of_short hshort] at h
      exact Except.error.inj h ▸ .short hshort
    · rw [ofTokens_concat] at h
      split at h
      · cases h
      · next misfit htarget =>
        obtain rfl := Except.error.inj h
        obtain ⟨hlength, rfl⟩ := Target.ofTokens_eq_error_iff.mp htarget
        exact .target assign value hlength
  · intro h
    cases h with
    | short hshort => exact ofTokens_of_short hshort
    | target assign value hlength => rw [ofTokens_concat, Target.ofTokens_eq_error_iff.mpr ⟨hlength, rfl⟩]

end Initialization

/-! ## Condition -/

/-- The form of a condition: the lookup gives the index of its comparator. -/
inductive Condition.Written (lookup : Lookup) (tokens : List Token) : Condition → Prop where
  | intro {index : Nat} (hlookup : lookup tokens = .ok index) (hlt : index < tokens.length) :
    Written lookup tokens ⟨tokens.take index, tokens[index], tokens.drop (index + 1)⟩

/-- Why tokens are no condition: the lookup gives no index, or one outside of them. -/
inductive Condition.Misread (lookup : Lookup) (tokens : List Token) : ComparatorError → Prop where
  | lookup {e : ComparatorError} (hlookup : lookup tokens = .error e) : Misread lookup tokens e
  | outOfRange {index : Nat} (hlookup : lookup tokens = .ok index) (hle : tokens.length ≤ index) :
    Misread lookup tokens (.outOfRange index tokens.length)

section

variable {lookup : Lookup} {tokens : List Token}

theorem Condition.ofTokens_eq_ok_iff {c : Condition} : Condition.ofTokens lookup tokens = .ok c ↔ Written lookup tokens c := by
  constructor
  · intro h
    unfold Condition.ofTokens at h
    split at h
    · cases h
    · next index hlookup =>
      split at h
      · next comparator hindex =>
        obtain rfl := Except.ok.inj h
        obtain ⟨hlt, rfl⟩ := List.getElem?_eq_some_iff.mp hindex
        exact .intro hlookup hlt
      · cases h
  · rintro ⟨hlookup, hlt⟩
    simp only [Condition.ofTokens, hlookup, List.getElem?_eq_getElem hlt]

theorem Condition.ofTokens_eq_error_iff {e : ComparatorError} :
    Condition.ofTokens lookup tokens = .error e ↔ Misread lookup tokens e := by
  constructor
  · intro h
    unfold Condition.ofTokens at h
    split at h
    · next hlookup =>
      obtain rfl := Except.error.inj h
      exact .lookup hlookup
    · next index hlookup =>
      split at h
      · cases h
      · next hindex =>
        obtain rfl := Except.error.inj h
        exact .outOfRange hlookup (List.getElem?_eq_none_iff.mp hindex)
  · intro h
    cases h with
    | lookup hlookup => simp only [Condition.ofTokens, hlookup]
    | outOfRange hlookup hle => simp only [Condition.ofTokens, hlookup, List.getElem?_eq_none hle]

end

/-! ## Update -/

/-- The operators an update may have. -/
def updateOperators : List String := ["+", "-", "*", "/", "%", "&", "|", "^"]

/-- The operators of a step by one. -/
def stepOperators : List String := ["+", "-"]

/-- The forms of an update. -/
inductive Update.Written : List Token → Update → Prop where
  /-- A name and a step by one in the same text. -/
  | stepped (t : Token) {name op : String} (hvalue : t.value = name ++ op ++ op) (hname : name ≠ "") (hop : op ∈ stepOperators) :
    Written [t] ⟨name, op, "1", t.location⟩
  /-- A name and a step by one. -/
  | apart (target step : Token) {op : String} (hstep : step.value = op ++ op) (hop : op ∈ stepOperators) :
    Written [target, step] ⟨target.value, op, "1", target.location⟩
  /-- A name, an assignment that combines, and a value. -/
  | combined (target assign value : Token) {op : String} (hassign : assign.value = op ++ "=") (hop : op ∈ updateOperators) :
    Written [target, assign, value] ⟨target.value, op, value.value, target.location⟩

/-- A name with a step by one behind it is taken apart into the two. -/
theorem splitStep?_append {name op : String} (hname : name ≠ "") (hop : op ∈ stepOperators) :
    splitStep? (name ++ op ++ op) = some (name, op) := by
  have hne : name.toList.reverse ≠ [] := List.reverse_ne_nil_iff.mpr fun h => hname (String.toList_inj.mp h)
  obtain ⟨c, cs, hreverse⟩ := List.exists_cons_of_ne_nil hne
  have hback : String.ofList (c :: cs).reverse = name := by rw [← hreverse, List.reverse_reverse, String.ofList_toList]
  simp only [stepOperators, List.mem_cons, List.not_mem_nil, or_false] at hop
  rcases hop with rfl | rfl
  · have htext : (name ++ "+" ++ "+").toList.reverse = '+' :: '+' :: c :: cs := by simp [hreverse]
    simp only [splitStep?, htext, hback]
  · have htext : (name ++ "-" ++ "-").toList.reverse = '-' :: '-' :: c :: cs := by simp [hreverse]
    simp only [splitStep?, htext, hback]

/-- The text ends in a step by one just when it is a name and an operator of a step twice. -/
theorem splitStep?_eq_some_iff {text name op : String} :
    splitStep? text = some (name, op) ↔ text = name ++ op ++ op ∧ name ≠ "" ∧ op ∈ stepOperators := by
  constructor
  · intro h
    unfold splitStep? at h
    split at h
    · next c cs heq =>
      obtain ⟨rfl, rfl⟩ := Prod.mk.inj (Option.some.inj h)
      refine ⟨?_, ?_, by decide⟩
      · rw [← String.toList_inj, ← List.reverse_inj, heq]
        simp
      · simp [← String.toList_inj]
    · next c cs heq =>
      obtain ⟨rfl, rfl⟩ := Prod.mk.inj (Option.some.inj h)
      refine ⟨?_, ?_, by decide⟩
      · rw [← String.toList_inj, ← List.reverse_inj, heq]
        simp
      · simp [← String.toList_inj]
    · cases h
  · rintro ⟨rfl, hname, hop⟩
    exact splitStep?_append hname hop

theorem stepOperator?_eq_some_iff {text op : String} : stepOperator? text = some op ↔ text = op ++ op ∧ op ∈ stepOperators := by
  constructor
  · intro h
    unfold stepOperator? at h
    split at h
    · next htext =>
      obtain rfl := Option.some.inj h
      exact ⟨htext, by decide⟩
    · split at h
      · next htext =>
        obtain rfl := Option.some.inj h
        exact ⟨htext, by decide⟩
      · cases h
  · rintro ⟨rfl, hop⟩
    revert op
    decide

theorem compoundOperators_lookup_eq_some_iff {text op : String} :
    compoundOperators.lookup text = some op ↔ text = op ++ "=" ∧ op ∈ updateOperators := by
  constructor
  · intro h
    have hall : ∀ pair ∈ compoundOperators, pair.1 = pair.2 ++ "=" ∧ pair.2 ∈ updateOperators := by decide
    obtain ⟨before, after, hsplit, -⟩ := List.lookup_eq_some_iff.mp h
    exact hall (text, op) (by simp [hsplit])
  · rintro ⟨rfl, hop⟩
    revert op
    decide

namespace Update

theorem ofTokens_eq_ok_iff {tokens : List Token} {u : Update} : ofTokens tokens = .ok u ↔ Written tokens u := by
  constructor
  · intro h
    unfold ofTokens at h
    split at h
    · next t =>
      split at h
      · next name op hsplit =>
        obtain rfl := Except.ok.inj h
        obtain ⟨hvalue, hname, hop⟩ := splitStep?_eq_some_iff.mp hsplit
        exact .stepped t hvalue hname hop
      · cases h
    · next target step =>
      split at h
      · next op hstep =>
        obtain rfl := Except.ok.inj h
        obtain ⟨hvalue, hop⟩ := stepOperator?_eq_some_iff.mp hstep
        exact .apart target step hvalue hop
      · cases h
    · next target assign value =>
      split at h
      · next op hlookup =>
        obtain rfl := Except.ok.inj h
        obtain ⟨hvalue, hop⟩ := compoundOperators_lookup_eq_some_iff.mp hlookup
        exact .combined target assign value hvalue hop
      · cases h
    · cases h
  · intro h
    cases h with
    | stepped t hvalue hname hop => simp only [ofTokens, splitStep?_eq_some_iff.mpr ⟨hvalue, hname, hop⟩]
    | apart target step hstep hop => simp only [ofTokens, stepOperator?_eq_some_iff.mpr ⟨hstep, hop⟩]
    | combined target assign value hassign hop =>
      simp only [ofTokens, compoundOperators_lookup_eq_some_iff.mpr ⟨hassign, hop⟩]

/-- However many tokens are refused, they are reported all together. -/
theorem misfit_eq {tokens : List Token} {m : Misfit} (h : ofTokens tokens = .error m) : m = ⟨"update", tokens⟩ := by
  unfold ofTokens at h
  split at h
  · split at h <;> cases h
    rfl
  · split at h <;> cases h
    rfl
  · split at h <;> cases h
    rfl
  · cases h
    rfl

theorem ofTokens_eq_error_iff {tokens : List Token} {m : Misfit} :
    ofTokens tokens = .error m ↔ (∀ u, ¬ Written tokens u) ∧ m = ⟨"update", tokens⟩ := by
  constructor
  · intro h
    refine ⟨fun u hu => ?_, misfit_eq h⟩
    rw [ofTokens_eq_ok_iff.mpr hu] at h
    cases h
  · rintro ⟨hnone, rfl⟩
    cases h : ofTokens tokens with
    | ok u => exact absurd (ofTokens_eq_ok_iff.mp h) (hnone u)
    | error m => rw [misfit_eq h]

end Update

/-! ## Header -/

/-- What may stand behind the last clause of a header: nothing, when the clause has tokens, or a semicolon. -/
def MayFollow (clause closing : List Token) : Prop :=
  closing = [] ∧ clause ≠ [] ∨ ∃ t : Token, t.is ";" = true ∧ closing = [t]

/-- The form of a header: a parenthesis and three clauses, the first two of which a semicolon ends. -/
inductive Header.Written : List Token → Header → Prop where
  | intro {opener first second : Token} {initialization condition update closing : List Token} (hopener : opener.is "(" = true)
    (hinitialization : NoSemicolon initialization) (hfirst : first.is ";" = true) (hcondition : NoSemicolon condition)
    (hsecond : second.is ";" = true) (hupdate : NoSemicolon update) (hclosing : MayFollow update closing) :
    Written (opener :: (initialization ++ first :: (condition ++ second :: (update ++ closing))))
      ⟨⟨opener, initialization⟩, ⟨first, condition⟩, ⟨second, update⟩⟩

/-- Why tokens are no header: there are none, they do not begin with a parenthesis, or those behind it are not three clauses. -/
inductive Header.Misread : List Token → HeaderFault → Prop where
  | empty : Misread [] .empty
  | unopened {opener : Token} {ts : List Token} (hopener : opener.is "(" = false) : Misread (opener :: ts) (.unopened opener)
  | clauseCount {opener : Token} {ts : List Token} (hopener : opener.is "(" = true) (hlength : (splitClauses opener ts).length ≠ 3) :
    Misread (opener :: ts) (.clauseCount opener (splitClauses opener ts).length)

/-- Tokens with what may follow them as the last clause are one clause. -/
theorem splitClauses_mayFollow {opener : Token} {clause closing : List Token} (h : NoSemicolon clause)
    (hclosing : MayFollow clause closing) : splitClauses opener (clause ++ closing) = [⟨opener, clause⟩] := by
  rcases hclosing with ⟨rfl, hne⟩ | ⟨t, ht, rfl⟩
  · rw [List.append_nil, splitClauses_last h, List.isEmpty_eq_false_iff.mpr hne]
    rfl
  · rw [splitClauses_append h ht]
    rfl

namespace Header

theorem ofTokens_eq_ok_iff {tokens : List Token} {header : Header} : ofTokens tokens = .ok header ↔ Written tokens header := by
  constructor
  · intro h
    unfold ofTokens at h
    split at h
    · cases h
    · next opener ts =>
      split at h
      · next hopener =>
        split at h
        · next a b c hclauses =>
          obtain rfl := Except.ok.inj h
          cases splitClauses_eq_iff.mp hclauses with
          | ended ha hfirst hclauses =>
            cases hclauses with
            | ended hb hsecond hclauses =>
              cases hclauses with
              | @last _ update hne hc =>
                have hwritten := Written.intro hopener ha hfirst hb hsecond hc (Or.inl ⟨rfl, hne⟩)
                rwa [List.append_nil] at hwritten
              | @ended _ last _ _ _ hc hlast hclauses =>
                cases hclauses
                exact .intro hopener ha hfirst hb hsecond hc (Or.inr ⟨last, hlast, rfl⟩)
        · cases h
      · cases h
  · rintro ⟨hopener, hinitialization, hfirst, hcondition, hsecond, hupdate, hclosing⟩
    rw [ofTokens, if_pos hopener, splitClauses_append hinitialization hfirst, splitClauses_append hcondition hsecond,
      splitClauses_mayFollow hupdate hclosing]

theorem ofTokens_eq_error_iff {tokens : List Token} {fault : HeaderFault} : ofTokens tokens = .error fault ↔ Misread tokens fault := by
  constructor
  · intro h
    unfold ofTokens at h
    split at h
    · obtain rfl := Except.error.inj h
      exact .empty
    · next opener ts =>
      split at h
      · next hopener =>
        split at h
        · cases h
        · next hother =>
          obtain rfl := Except.error.inj h
          refine .clauseCount hopener fun hlength => ?_
          obtain ⟨a, b, c, heq⟩ := List.length_eq_three.mp hlength
          exact hother a b c heq
      · next hopener =>
        obtain rfl := Except.error.inj h
        exact .unopened (Bool.eq_false_iff.mpr hopener)
  · intro h
    cases h with
    | empty => rfl
    | unopened hopener =>
      rw [ofTokens, hopener]
      rfl
    | @clauseCount opener ts hopener hlength =>
      rw [ofTokens, if_pos hopener]
      split
      · next heq =>
        rw [heq] at hlength
        exact absurd rfl hlength
      · rfl

/-- Tokens with the form of a header are not refused as one. -/
theorem Written.not_misread {tokens : List Token} {header : Header} {fault : HeaderFault} (h : Written tokens header) :
    ¬ Misread tokens fault := fun hmisread => by
  have hread := (ofTokens_eq_ok_iff.mpr h).symm.trans (ofTokens_eq_error_iff.mpr hmisread)
  cases hread

/-- Tokens are refused as a header when there are none, when they do not begin with a parenthesis, and when they are not three clauses. -/
theorem exists_misread_iff {tokens : List Token} :
    (∃ fault, Misread tokens fault) ↔
      tokens = [] ∨ ∃ opener ts, tokens = opener :: ts ∧ (opener.value ≠ "(" ∨ (splitClauses opener ts).length ≠ 3) := by
  constructor
  · rintro ⟨fault, hempty | hopener | ⟨hopener, hlength⟩⟩
    · exact Or.inl rfl
    · exact Or.inr ⟨_, _, rfl, Or.inl fun heq => by simp [Token.is, heq] at hopener⟩
    · exact Or.inr ⟨_, _, rfl, Or.inr hlength⟩
  · rintro (rfl | ⟨opener, ts, rfl, h⟩)
    · exact ⟨.empty, .empty⟩
    · cases hopener : opener.is "(" with
      | false => exact ⟨.unopened opener, .unopened hopener⟩
      | true =>
        have hvalue := (Token.is_eq_true_iff _ _).mp hopener
        have hlength := h.resolve_left fun hne => hne hvalue
        exact ⟨.clauseCount opener _, .clauseCount hopener hlength⟩

end Header

end LoopForest
