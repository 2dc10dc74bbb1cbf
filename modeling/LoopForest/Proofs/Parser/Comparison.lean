import LoopForest.Proofs.Parser.Additions

/-!
# Conditions and their comparators

A condition is read when its lookup gives an index inside it, whatever the lookup is, and then no token of it is lost: what is kept left
and right of the comparator, with the comparator between them, is the condition (`Condition.Written.append_eq`).

The lookup for relational operators looks at the first one and at how many there are behind it, and so it goes by their number
(`Lookup.relational_eq_countP`). It answers when there is one of them, and then there is none in what is kept on either side. Otherwise it
tells none from several and gives their number (`Lookup.relational_eq_ok_iff`, `Lookup.relational_eq_error_iff`). An index it gives
lies inside the condition, so with this lookup a condition is never refused because of an index outside
(`Condition.misread_relational_iff`).
-/

namespace LoopForest

theorem Token.isRelational_iff {t : Token} : t.isRelational = true ↔ t.value ∈ relationalOperators := List.contains_iff_mem

namespace Lookup

variable {tokens : List Token}

/-- The first relational operator is the one that is found first. -/
theorem head?_relationalIndices (tokens : List Token) :
    (relationalIndices tokens).head? = tokens.findIdx? Token.isRelational := by
  rw [relationalIndices, List.head?_map, List.head?_filter, List.findIdx?_eq_fst_find?_zipIdx]

/-- There are as many indices as relational operators. -/
theorem length_relationalIndices (tokens : List Token) :
    (relationalIndices tokens).length = tokens.countP Token.isRelational :=
  calc (relationalIndices tokens).length
      = tokens.zipIdx.countP (Token.isRelational ∘ Prod.fst) := by
        rw [relationalIndices, List.length_map, List.countP_eq_length_filter]
        rfl
    _ = (tokens.zipIdx.map Prod.fst).countP Token.isRelational := List.countP_map.symm
    _ = tokens.countP Token.isRelational := by rw [List.zipIdx_map_fst]

/-- The lookup goes by how many relational operators there are, and answers the index of the only one. -/
theorem relational_eq_countP (tokens : List Token) :
    relational tokens =
      match tokens.countP Token.isRelational with
      | 0 => .error .missing
      | 1 => .ok (tokens.findIdx Token.isRelational)
      | count => .error (.ambiguous count) := by
  have hhead := head?_relationalIndices tokens
  have hlength := length_relationalIndices tokens
  unfold relational
  cases hfound : relationalIndices tokens with
  | nil =>
    rw [hfound] at hlength
    rw [← hlength]
    rfl
  | cons index behind =>
    rw [hfound] at hhead hlength
    have hindex : tokens.findIdx Token.isRelational = index := (List.findIdx?_eq_some_iff_findIdx_eq.mp hhead.symm).2
    rw [← hlength, hindex]
    cases behind <;> rfl

theorem relational_eq_ok_iff {index : Nat} :
    relational tokens = .ok index ↔ tokens.countP Token.isRelational = 1 ∧ index = tokens.findIdx Token.isRelational := by
  rw [relational_eq_countP]
  generalize tokens.countP Token.isRelational = count
  match count with
  | 0 => simp
  | 1 => simp [eq_comm]
  | count + 2 => simp

theorem relational_eq_error_iff {e : ComparatorError} :
    relational tokens = .error e ↔
      tokens.countP Token.isRelational = 0 ∧ e = .missing ∨
        2 ≤ tokens.countP Token.isRelational ∧ e = .ambiguous (tokens.countP Token.isRelational) := by
  rw [relational_eq_countP]
  generalize tokens.countP Token.isRelational = count
  match count with
  | 0 => simp [eq_comm]
  | 1 => simp
  | count + 2 => simp [eq_comm]

end Lookup

/-- Of tokens of which one is a relational operator, those around that one are none. -/
theorem relational_sides {tokens : List Token} (h : tokens.countP Token.isRelational = 1) :
    ∃ hlt : tokens.findIdx Token.isRelational < tokens.length, tokens[tokens.findIdx Token.isRelational].isRelational = true ∧
      ∀ t ∈ tokens.take (tokens.findIdx Token.isRelational) ++ tokens.drop (tokens.findIdx Token.isRelational + 1),
        t.isRelational = false := by
  have hlt : tokens.findIdx Token.isRelational < tokens.length :=
    List.findIdx_lt_length.mpr (List.countP_pos_iff.mp (Nat.lt_of_lt_of_eq Nat.one_pos h.symm))
  have hfound : tokens[tokens.findIdx Token.isRelational].isRelational = true := List.findIdx_getElem
  refine ⟨hlt, hfound, fun t ht => Bool.eq_false_iff.mpr ?_⟩
  generalize tokens.findIdx Token.isRelational = index at *
  have hsplit : tokens.take index ++ tokens[index] :: tokens.drop (index + 1) = tokens := by
    rw [List.getElem_cons_drop, List.take_append_drop]
  have hcount : (tokens.take index ++ tokens.drop (index + 1)).countP Token.isRelational = 0 := by
    rw [← hsplit, List.countP_append, List.countP_cons_of_pos hfound] at h
    rw [List.countP_append]
    omega
  exact List.countP_eq_zero.mp hcount t ht

namespace Condition

variable {lookup : Lookup} {tokens : List Token}

/-- A condition that is read loses no token. -/
theorem Written.append_eq {c : Condition} (h : Written lookup tokens c) : c.left ++ c.comparator :: c.right = tokens := by
  cases h with
  | intro hlookup hlt => rw [List.getElem_cons_drop, List.take_append_drop]

/-- The comparator stands where the lookup says. -/
theorem Written.lookup_eq {c : Condition} (h : Written lookup tokens c) : lookup tokens = .ok c.left.length := by
  cases h with
  | intro hlookup hlt => rw [hlookup, List.length_take_of_le (Nat.le_of_lt hlt)]

theorem exists_written_iff : (∃ c, Written lookup tokens c) ↔ ∃ index < tokens.length, lookup tokens = .ok index := by
  constructor
  · rintro ⟨c, ⟨hlookup, hlt⟩⟩
    exact ⟨_, hlt, hlookup⟩
  · rintro ⟨index, hlt, hlookup⟩
    exact ⟨_, .intro hlookup hlt⟩

/-- With the lookup for relational operators, a condition has one of them between sides that have none. -/
theorem Written.sides {c : Condition} (h : Written .relational tokens c) :
    c.comparator.isRelational = true ∧ ∀ t ∈ c.left ++ c.right, t.isRelational = false := by
  cases h with
  | intro hlookup hlt =>
    obtain ⟨hcount, rfl⟩ := Lookup.relational_eq_ok_iff.mp hlookup
    obtain ⟨_, hfound, hsides⟩ := relational_sides hcount
    exact ⟨hfound, hsides⟩

theorem exists_written_relational_iff : (∃ c, Written .relational tokens c) ↔ tokens.countP Token.isRelational = 1 := by
  rw [exists_written_iff]
  constructor
  · rintro ⟨index, -, hlookup⟩
    exact (Lookup.relational_eq_ok_iff.mp hlookup).1
  · intro hcount
    obtain ⟨hlt, -, -⟩ := relational_sides hcount
    exact ⟨_, hlt, Lookup.relational_eq_ok_iff.mpr ⟨hcount, rfl⟩⟩

/-- With the lookup for relational operators, a condition is refused because it has none or several, and never because of an index. -/
theorem misread_relational_iff {e : ComparatorError} :
    Misread .relational tokens e ↔
      tokens.countP Token.isRelational = 0 ∧ e = .missing ∨
        2 ≤ tokens.countP Token.isRelational ∧ e = .ambiguous (tokens.countP Token.isRelational) := by
  rw [← Lookup.relational_eq_error_iff]
  constructor
  · intro h
    cases h with
    | lookup hlookup => exact hlookup
    | outOfRange hlookup hle =>
      obtain ⟨hcount, rfl⟩ := Lookup.relational_eq_ok_iff.mp hlookup
      obtain ⟨hlt, -, -⟩ := relational_sides hcount
      exact absurd hlt (Nat.not_lt.mpr hle)
  · exact .lookup

end Condition

namespace Parser

/-- A parser reads a condition just when the tokens have the form of one, and adds a node for what it says. -/
theorem parseCondition_fst_eq_ok_iff {p : Parser} {tokens : List Token} :
    (∃ id, (parseCondition tokens p).1 = .ok id) ↔ ∃ c, Condition.Written p.lookup tokens c := by
  simp only [← Condition.ofTokens_eq_ok_iff, parseCondition_eq]
  cases Condition.ofTokens p.lookup tokens <;> simp

theorem parseCondition_fst_eq_error_iff {p : Parser} {tokens : List Token} {e : ParseError} :
    (parseCondition tokens p).1 = .error e ↔
      ∃ cause, Condition.Misread p.lookup tokens cause ∧ e = .invalidCondition cause (p.anchor tokens) := by
  simp only [← Condition.ofTokens_eq_error_iff, parseCondition_eq]
  cases Condition.ofTokens p.lookup tokens <;> simp [eq_comm]

/-- The node that is added holds the two sides and the text of the comparator. -/
theorem exists_condition_node {p : Parser} {tokens : List Token} {id : NodeId} (h : (parseCondition tokens p).1 = .ok id) :
    ∃ c, Condition.Written p.lookup tokens c ∧
      (parseCondition tokens p).2.forest.node? id = some (.loopCondition c.left c.comparator.value c.right) := by
  rw [parseCondition_eq] at h ⊢
  cases hc : Condition.ofTokens p.lookup tokens with
  | ok c =>
    rw [hc] at h
    obtain rfl := Except.ok.inj h
    refine ⟨c, Condition.ofTokens_eq_ok_iff.mp hc, ?_⟩
    simp only [withForest_forest, Forest.extend, Forest.withCondition, Forest.node?_withNode, if_true]
  | error e =>
    rw [hc] at h
    cases h

/-- With any lookup, a condition is read just when the lookup gives an index inside it. The node that is added keeps the text of the token
at that index and the tokens left and right of it, which are all of the condition with that token between them.

With the lookup for relational operators, a condition is read just when one of its tokens is such an operator. That token is the
comparator then, and neither side holds another one. Otherwise the error says that there is none, or how many there are. -/
theorem parseCondition_lossless (p : Parser) (tokens : List Token) :
    let answer := (parseCondition tokens p).1
    let g := (parseCondition tokens p).2.forest
    ((∃ id, answer = .ok id) ↔ ∃ index < tokens.length, p.lookup tokens = .ok index) ∧
    (∀ id, answer = .ok id → ∃ (left : List Token) (comparator : Token) (right : List Token),
      p.lookup tokens = .ok left.length ∧ left ++ comparator :: right = tokens ∧
        g.node? id = some (.loopCondition left comparator.value right)) ∧
    (p.lookup = .relational →
      ((∃ id, answer = .ok id) ↔ tokens.countP Token.isRelational = 1) ∧
      (∀ id left comparator right, answer = .ok id → g.node? id = some (.loopCondition left comparator right) →
        comparator ∈ relationalOperators ∧ ∀ t ∈ left ++ right, t.value ∉ relationalOperators) ∧
      ∀ e, answer = .error e ↔
        tokens.countP Token.isRelational = 0 ∧ e = .invalidCondition .missing (p.anchor tokens) ∨
          2 ≤ tokens.countP Token.isRelational ∧
            e = .invalidCondition (.ambiguous (tokens.countP Token.isRelational)) (p.anchor tokens)) := by
  intro answer g
  have hok : (∃ id, answer = .ok id) ↔ ∃ c, Condition.Written p.lookup tokens c := parseCondition_fst_eq_ok_iff
  refine ⟨hok.trans Condition.exists_written_iff, fun id hid => ?_, fun hlookup =>
    ⟨?_, fun id left comparator right hid hheld => ?_, fun e => ?_⟩⟩
  · obtain ⟨c, hc, hnode⟩ := exists_condition_node hid
    exact ⟨c.left, c.comparator, c.right, hc.lookup_eq, hc.append_eq, hnode⟩
  · rw [hok, hlookup, Condition.exists_written_relational_iff]
  · obtain ⟨c, hc, hnode⟩ := exists_condition_node hid
    rw [hlookup] at hc
    obtain ⟨hcomparator, hsides⟩ := hc.sides
    obtain ⟨rfl, rfl, rfl⟩ := Node.loopCondition.inj (Option.some.inj (hnode.symm.trans hheld))
    exact ⟨Token.isRelational_iff.mp hcomparator, fun t ht => mt Token.isRelational_iff.mpr (Bool.eq_false_iff.mp (hsides t ht))⟩
  · have herror : answer = .error e ↔ _ := parseCondition_fst_eq_error_iff
    rw [herror, hlookup]
    simp only [Condition.misread_relational_iff, or_and_right, and_assoc, exists_or, exists_and_left, exists_eq_left]

/-- The statement at a condition with an operator that does not compare and one that does, and at one with two that do. -/
theorem parseCondition_lossless_productCompared :
    let token (text : String) : Token := ⟨.identifier, text, ⟨1, 5⟩⟩
    let p := ofTokens []
    let tokens := ["i", "*", "2", "<=", "n"].map token
    let chained := ["a", "<", "b", "<", "c"].map token
    let g := (parseCondition tokens p).2.forest
    p.lookup = .relational ∧ (parseCondition tokens p).1 = .ok 1 ∧
      (∃ (left : List Token) (comparator : Token) (right : List Token), p.lookup tokens = .ok left.length ∧
        left ++ comparator :: right = tokens ∧ g.node? 1 = some (.loopCondition left comparator.value right) ∧
        comparator.value ∈ relationalOperators ∧ ∀ t ∈ left ++ right, t.value ∉ relationalOperators) ∧
      (parseCondition chained p).1 = .error (.invalidCondition (.ambiguous 2) ⟨1, 5⟩) := by
  intro token p tokens chained g
  have hlookup : p.lookup = .relational := rfl
  have hid : (parseCondition tokens p).1 = .ok 1 := by decide +kernel
  obtain ⟨-, hkept, hrelational⟩ := parseCondition_lossless p tokens
  obtain ⟨left, comparator, right, hindex, happend, hnode⟩ := hkept 1 hid
  obtain ⟨hcomparator, hsides⟩ := (hrelational hlookup).2.1 1 left comparator.value right hid hnode
  obtain ⟨-, -, hchained⟩ := parseCondition_lossless p chained
  have hseveral := ((hchained hlookup).2.2 (.invalidCondition (.ambiguous 2) ⟨1, 5⟩)).mpr (Or.inr (by decide))
  exact ⟨hlookup, hid, ⟨left, comparator, right, hindex, happend, hnode, hcomparator, hsides⟩, hseveral⟩

end Parser

end LoopForest
