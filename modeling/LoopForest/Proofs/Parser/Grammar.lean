import LoopForest.Proofs.Parser.Shape

/-!
# The grammar of loops

Which headers are those of loops, and what a loop says, can be told from the forms of a header and of its clauses (`Loop.Written`); so can
the error of a header that is not that of a loop (`Loop.Refused`). Reading without a parser goes by this grammar
(`Loop.ofHeader_eq_ok_iff`, `Loop.exists_fault_iff`), and so does a parser in use that is given a header and a body
(`Parser.parseLoop_grammar`): it adds the six nodes of the loop that is written, or it reports the first thing that is not written as it
should be.
-/

namespace LoopForest

/-- What the header of a loop says: each of the three clauses has the form that it should have. -/
inductive Loop.Written (lookup : Lookup) (header : List Token) : Loop → Prop where
  | intro {clauses : Header} {i : Initialization} {c : Condition} {u : Update} (hclauses : Header.Written header clauses)
    (hi : Initialization.Written clauses.initialization.tokens i) (hc : Condition.Written lookup clauses.condition.tokens c)
    (hu : Update.Written clauses.update.tokens u) : Written lookup header ⟨i, c, clauses.condition.place, u⟩

/-- The first of three clauses that does not have its form, as an error: the clauses before it do have theirs. -/
inductive Header.Refused (lookup : Lookup) (clauses : Header) : ParseError → Prop where
  | initialization {m : Misfit} (h : Initialization.Misread clauses.initialization.tokens m) :
    Refused lookup clauses (m.error clauses.initialization.opener.location)
  | condition {i : Initialization} {e : ComparatorError} (hi : Initialization.Written clauses.initialization.tokens i)
    (h : Condition.Misread lookup clauses.condition.tokens e) :
    Refused lookup clauses (.invalidCondition e clauses.condition.place)
  | update {i : Initialization} {c : Condition} (hi : Initialization.Written clauses.initialization.tokens i)
    (hc : Condition.Written lookup clauses.condition.tokens c) (h : ∀ u, ¬ Update.Written clauses.update.tokens u) :
    Refused lookup clauses (Misfit.error ⟨"update", clauses.update.tokens⟩ clauses.update.opener.location)

/-- The error of a header that is not that of a loop. -/
inductive Loop.Refused (lookup : Lookup) (keyword : Location) (header : List Token) : ParseError → Prop where
  | header {fault : HeaderFault} (h : Header.Misread header fault) :
    Refused lookup keyword header (.malformedHeader fault.reason (fault.location keyword))
  | clause {clauses : Header} {e : ParseError} (hclauses : Header.Written header clauses) (h : clauses.Refused lookup e) :
    Refused lookup keyword header e

namespace Clause

variable {clause : Clause} {lookup : Lookup} {e : ParseError}

theorem initialization_eq_ok_iff {i : Initialization} : clause.initialization = .ok i ↔ Initialization.Written clause.tokens i :=
  mapError_eq_ok_iff.trans Initialization.ofTokens_eq_ok_iff

theorem initialization_eq_error_iff :
    clause.initialization = .error e ↔ ∃ m, Initialization.Misread clause.tokens m ∧ m.error clause.opener.location = e := by
  simp only [Clause.initialization, mapError_eq_error_iff, Initialization.ofTokens_eq_error_iff]

theorem condition_eq_ok_iff {c : Condition} : clause.condition lookup = .ok c ↔ Condition.Written lookup clause.tokens c :=
  mapError_eq_ok_iff.trans Condition.ofTokens_eq_ok_iff

theorem condition_eq_error_iff :
    clause.condition lookup = .error e ↔
      ∃ cause, Condition.Misread lookup clause.tokens cause ∧ .invalidCondition cause clause.place = e := by
  simp only [Clause.condition, mapError_eq_error_iff, Condition.ofTokens_eq_error_iff]

theorem update_eq_ok_iff {u : Update} : clause.update = .ok u ↔ Update.Written clause.tokens u :=
  mapError_eq_ok_iff.trans Update.ofTokens_eq_ok_iff

theorem update_eq_error_iff :
    clause.update = .error e ↔
      (∀ u, ¬ Update.Written clause.tokens u) ∧ Misfit.error ⟨"update", clause.tokens⟩ clause.opener.location = e := by
  simp only [Clause.update, mapError_eq_error_iff, Update.ofTokens_eq_error_iff, and_assoc, exists_and_left, exists_eq_left]

end Clause

section

variable {lookup : Lookup} {header : List Token}

theorem Loop.ofHeader_eq_ok_iff {l : Loop} : ofHeader lookup header = .ok l ↔ Written lookup header l := by
  constructor
  · intro h
    have hread := readBy_ofHeader lookup header
    rw [h] at hread
    cases hread with
    | loop hclauses hi hc hu =>
      exact .intro (Header.ofTokens_eq_ok_iff.mp hclauses) (Clause.initialization_eq_ok_iff.mp hi) (Clause.condition_eq_ok_iff.mp hc)
        (Clause.update_eq_ok_iff.mp hu)
  · rintro ⟨hclauses, hi, hc, hu⟩
    simp only [ofHeader, Header.ofTokens_eq_ok_iff.mpr hclauses, Clause.initialization_eq_ok_iff.mpr hi,
      Clause.condition_eq_ok_iff.mpr hc, Clause.update_eq_ok_iff.mpr hu]

/-- What is refused is refused with its error, and nothing else is. -/
theorem Loop.exists_fault_iff {keyword : Location} {e : ParseError} :
    (∃ fault, ofHeader lookup header = .error fault ∧ fault.error keyword = e) ↔ Refused lookup keyword header e := by
  constructor
  · rintro ⟨fault, h, rfl⟩
    have hread := readBy_ofHeader lookup header
    rw [h] at hread
    cases hread with
    | header hfault => exact .header (Header.ofTokens_eq_error_iff.mp hfault)
    | initialization hclauses he =>
      obtain ⟨m, hm, rfl⟩ := Clause.initialization_eq_error_iff.mp he
      exact .clause (Header.ofTokens_eq_ok_iff.mp hclauses) (.initialization hm)
    | condition hclauses hi he =>
      obtain ⟨cause, hcause, rfl⟩ := Clause.condition_eq_error_iff.mp he
      exact .clause (Header.ofTokens_eq_ok_iff.mp hclauses) (.condition (Clause.initialization_eq_ok_iff.mp hi) hcause)
    | update hclauses hi hc he =>
      obtain ⟨hnone, rfl⟩ := Clause.update_eq_error_iff.mp he
      exact .clause (Header.ofTokens_eq_ok_iff.mp hclauses)
        (.update (Clause.initialization_eq_ok_iff.mp hi) (Clause.condition_eq_ok_iff.mp hc) hnone)
  · intro h
    cases h with
    | @header fault hfault => exact ⟨.header fault, by simp only [ofHeader, Header.ofTokens_eq_error_iff.mpr hfault], rfl⟩
    | @clause clauses e hclauses hclause =>
      have hclauses := Header.ofTokens_eq_ok_iff.mpr hclauses
      cases hclause with
      | @initialization m hm =>
        have he := Clause.initialization_eq_error_iff.mpr ⟨m, hm, rfl⟩
        refine ⟨.initialization (m.error clauses.initialization.opener.location), ?_, rfl⟩
        simp only [ofHeader, hclauses, he]
      | @condition i _ hi hcause =>
        have hi := Clause.initialization_eq_ok_iff.mpr hi
        have he := Clause.condition_eq_error_iff.mpr ⟨_, hcause, rfl⟩
        refine ⟨.condition i _, ?_, rfl⟩
        simp only [ofHeader, hclauses, hi, he]
      | @update i c hi hc hnone =>
        have hi := Clause.initialization_eq_ok_iff.mpr hi
        have hc := Clause.condition_eq_ok_iff.mpr hc
        have he := Clause.update_eq_error_iff.mpr ⟨hnone, rfl⟩
        refine ⟨.update i c clauses.condition.place (Misfit.error _ clauses.update.opener.location), ?_, rfl⟩
        simp only [ofHeader, hclauses, hi, hc, he]

end

/-- The error of a clause is not that the header is malformed. -/
theorem Header.Refused.ne_malformedHeader {lookup : Lookup} {clauses : Header} {e : ParseError} (h : clauses.Refused lookup e)
    (reason : String) (place : Location) : e ≠ .malformedHeader reason place := by
  cases h <;> exact nofun

/-- The error of a loop is that the header is malformed, or it is that of a clause. -/
theorem Loop.Refused.malformed_iff {lookup : Lookup} {keyword : Location} {header : List Token} {e : ParseError}
    (h : Refused lookup keyword header e) :
    (∃ reason place, e = .malformedHeader reason place) ↔ ∃ fault, Header.Misread header fault := by
  cases h with
  | header hfault => exact iff_of_true ⟨_, _, rfl⟩ ⟨_, hfault⟩
  | clause hclauses hclause =>
    refine iff_of_false ?_ fun ⟨fault, hfault⟩ => hclauses.not_misread hfault
    rintro ⟨reason, place, he⟩
    exact hclause.ne_malformedHeader reason place he

namespace Parser

/-- In a parser in use, reading a header and a body answers just when the header is written as that of a loop. Then six nodes are added
behind the others, which stay what they are, with their owners and their children: those of what is written, with the body as it is given
and the loop at the given place. Nothing else of the parser changes.

Otherwise the error is that of the header, which is malformed when it is empty, does not begin with a parenthesis or does not have three
clauses, and then only; or else it is the error of the first clause that is not written as it should be. -/
theorem parseLoop_grammar {p : Parser} (hp : p.Reached) (header body : List Token) (location : Location) :
    (∀ id q, parseLoop header body location p = (.ok id, q) ↔
      ∃ l, Loop.Written p.lookup header l ∧ id = p.forest.size + 5 ∧ q = p.withForest (p.forest.withLoop l body location)) ∧
    (∀ l, let g := p.forest.withLoop l body location
      g.size = p.forest.size + 6 ∧ p.forest.KeepsOwners g ∧ (∀ id, g.children id = p.forest.children id) ∧
        g.HoldsLoop p.forest.size l body ∧
        (List.range 6).map (fun i => g.location? (p.forest.size + i)) =
          [l.initialization.target.location, l.initialization.target.location, l.place, l.update.location, l.update.location,
            location].map some) ∧
    (∀ e, (parseLoop header body location p).1 = .error e ↔ Loop.Refused p.lookup location header e) ∧
    ∀ e, (parseLoop header body location p).1 = .error e →
      ((∃ reason place, e = .malformedHeader reason place) ↔
        header = [] ∨ ∃ opener ts, header = opener :: ts ∧ (opener.value ≠ "(" ∨ (splitClauses opener ts).length ≠ 3)) := by
  have hroot := hp.sound.reached.root_lt_size
  have hread := parseLoop_eq hroot hp.sound.no_opener header body location
  have hrefused : ∀ e, (parseLoop header body location p).1 = .error e ↔ Loop.Refused p.lookup location header e := fun e => by
    rw [← Loop.exists_fault_iff, hread]
    cases Loop.ofHeader p.lookup header <;> simp
  refine ⟨fun id q => ?_, ?_, hrefused, fun e he => ((hrefused e).mp he).malformed_iff.trans Header.exists_misread_iff⟩
  · simp only [hread, ← Loop.ofHeader_eq_ok_iff]
    cases Loop.ofHeader p.lookup header <;> simp [eq_comm]
  · intro l g
    refine ⟨Forest.size_withLoop .., Forest.keepsOwners_withLoop hroot l body location, Forest.children_withLoop _ l body location,
      Forest.holdsLoop_withLoop hroot l body location, ?_⟩
    simp [g, Forest.location?_withLoop, List.range_succ]

/-- The statement at a parser that has read a variable, for a header that a semicolon closes and for three others: without its parenthesis,
with two clauses, and with two clauses that are not written as they should be. -/
theorem parseLoop_grammar_variableRead :
    let token (text : String) : Token := ⟨.identifier, text, ⟨2, 1⟩⟩
    let p := (ofTokens []).run [.parseTarget [token "x"]]
    let written := ["(", "int", "i", "=", "0", ";", "i", "<", "3", ";", "i", "+=", "2", ";"].map token
    let unopened := ["int", "i", "=", "0", ";", "i", "<", "3", ";", "i++"].map token
    let short := ["(", "i", "=", "0", ";", ";"].map token
    let misread := ["(", "i", ";", "i", "<", "3", ";", "++"].map token
    p.Reached ∧
      (∃ l, Loop.Written p.lookup written l ∧ 7 = p.forest.size + 5 ∧
        (parseLoop written [] ⟨1, 1⟩ p).2 = p.withForest (p.forest.withLoop l [] ⟨1, 1⟩) ∧
        (p.forest.withLoop l [] ⟨1, 1⟩).HoldsLoop 2 l []) ∧
      Loop.Refused p.lookup ⟨1, 1⟩ unopened (.malformedHeader "expected '(' after 'for', found identifier 'int'" ⟨2, 1⟩) ∧
      Loop.Refused p.lookup ⟨1, 1⟩ short (.malformedHeader "expected 3 ';'-separated clauses, found 2" ⟨2, 1⟩) ∧
      Loop.Refused p.lookup ⟨1, 1⟩ misread (.unsupported "assignment" "1 token(s) 'i'" ⟨2, 1⟩) := by
  intro token p written unopened short misread
  have hp : p.Reached := ⟨_, _, rfl⟩
  have hsize : p.forest.size = 2 := by decide +kernel
  have hwritten : (parseLoop written [] ⟨1, 1⟩ p).1 = .ok 7 := by decide +kernel
  have hunopened : (parseLoop unopened [] ⟨1, 1⟩ p).1 =
      .error (.malformedHeader "expected '(' after 'for', found identifier 'int'" ⟨2, 1⟩) := by decide +kernel
  have hshort : (parseLoop short [] ⟨1, 1⟩ p).1 =
      .error (.malformedHeader "expected 3 ';'-separated clauses, found 2" ⟨2, 1⟩) := by decide +kernel
  have hmisread : (parseLoop misread [] ⟨1, 1⟩ p).1 = .error (.unsupported "assignment" "1 token(s) 'i'" ⟨2, 1⟩) := by
    decide +kernel
  obtain ⟨hok, hnodes, -, -⟩ := parseLoop_grammar hp written [] ⟨1, 1⟩
  have hrefused : ∀ header e, (parseLoop header [] ⟨1, 1⟩ p).1 = .error e → Loop.Refused p.lookup ⟨1, 1⟩ header e :=
    fun header e he => by
      obtain ⟨-, -, herror, -⟩ := parseLoop_grammar hp header [] ⟨1, 1⟩
      exact (herror e).mp he
  have hpair : parseLoop written [] ⟨1, 1⟩ p = (.ok 7, (parseLoop written [] ⟨1, 1⟩ p).2) := by rw [← hwritten]
  obtain ⟨l, hl, hid, hq⟩ := (hok 7 _).mp hpair
  obtain ⟨-, -, -, hholds, -⟩ := hnodes l
  rw [hsize] at hholds
  exact ⟨hp, ⟨l, hl, hid, hq, hholds⟩, hrefused _ _ hunopened, hrefused _ _ hshort, hrefused _ _ hmisread⟩

end Parser

end LoopForest
