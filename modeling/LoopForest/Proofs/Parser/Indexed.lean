import LoopForest.Proofs.Forest.Bounds
import LoopForest.Proofs.Loop.Clauses
import LoopForest.Proofs.Parser.Rollback

/-!
# Parsers and indices

A parser holds its tokens on both sides of a cursor and cannot look beyond them. The parser of this file holds them in one list with the
position as a number, which nothing keeps within the list. Every access is by index here: to the next token, to the stretches of a
header that are its clauses, to the first token of an initialization, to both sides of a comparator at whatever index a lookup
answers, to the first byte of an operator that combines, and to the entries of the forest. An access out of bounds ends the
parser (`Checked`), and it then has neither an answer nor a state.

`Agrees x y` says that `x` never ends this way as long as the position lies within the tokens, that it leaves it there, and that it does
what `y` does. It is closed under sequencing, so each function agrees with its counterpart by the accesses it makes itself
(`agrees_parseLoop`, `Checked.agrees_parseProgram`).
-/

namespace LoopForest

/-! ## Clauses and operators -/

/-- The clauses from index `i` on, where `rest` begins, when the one that is open stands behind `opener` and begins at `start`. -/
def clausesAt? (tokens : List Token) (opener : Token) (start i : Nat) : List Token → Option (List Clause)
  | [] => (slice? tokens start tokens.length).map fun last => if last.isEmpty then [] else [⟨opener, last⟩]
  | t :: rest =>
    if t.is ";" then
      (slice? tokens start i).bind fun clause => (clausesAt? tokens t (i + 1) (i + 1) rest).map (⟨opener, clause⟩ :: ·)
    else clausesAt? tokens opener start (i + 1) rest

/-- Reads a header. -/
def headerAt? : List Token → Option (Except HeaderFault Header)
  | [] => some (.error .empty)
  | opener :: ts =>
    if opener.is "(" then
      (clausesAt? ts opener 0 0 ts).map fun
        | [initialization, condition, update] => .ok ⟨initialization, condition, update⟩
        | clauses => .error (.clauseCount opener clauses.length)
    else some (.error (.unopened opener))

/-- The text up to its first byte, in bounds when it begins with a character of one byte. -/
def firstByte? (text : String) : Option String :=
  match text.toList with
  | [] => none
  | c :: _ => if c.utf8Size = 1 then some (String.ofList [c]) else none

/-- The operator of an assignment that combines: its first byte. -/
def compoundOperatorAt? (text : String) : Option (Option String) :=
  if text ∈ compoundOperators.map Prod.fst then (firstByte? text).map some else some none

/-- The clauses are slices, and those of `splitClauses`. The tokens of the clause that is open lie before the index. -/
theorem clausesAt?_eq (opener : Token) (closed : List Token) {current : List Token} (h : NoSemicolon current) (rest : List Token) :
    clausesAt? (closed ++ current ++ rest) opener closed.length (closed ++ current).length rest =
      some (splitClauses opener (current ++ rest)) := by
  induction rest generalizing opener closed current with
  | nil =>
    have hslice := slice?_length (l := closed ++ current) (i := closed.length) (by simp)
    rw [List.append_nil, List.append_nil, clausesAt?, hslice, List.drop_left, Option.map_some, splitClauses_last h]
  | cons t rest ih =>
    rw [clausesAt?]
    by_cases ht : t.is ";" = true
    · have hslice := slice?_append closed current (t :: rest)
      have hnil : NoSemicolon [] := nofun
      have hih := ih t (closed ++ current ++ [t]) hnil
      simp only [List.append_nil, List.append_assoc, List.singleton_append, List.nil_append, List.length_append,
        List.length_singleton, ← Nat.add_assoc] at hslice hih ⊢
      rw [if_pos ht, hslice, Option.bind_some, hih, Option.map_some, splitClauses_append h ht]
    · have hopen : NoSemicolon (current ++ [t]) :=
        List.forall_mem_append.mpr ⟨h, List.forall_mem_singleton.mpr (Bool.eq_false_iff.mpr ht)⟩
      have hih := ih opener closed hopen
      simp only [List.append_assoc, List.singleton_append, List.length_append, List.length_singleton, ← Nat.add_assoc] at hih ⊢
      rw [if_neg ht, hih]

theorem headerAt?_eq (header : List Token) : headerAt? header = some (Header.ofTokens header) := by
  cases header with
  | nil => rfl
  | cons opener ts =>
    have hnil : NoSemicolon [] := nofun
    have hclauses := clausesAt?_eq opener [] hnil ts
    simp only [List.nil_append, List.length_nil] at hclauses
    rw [headerAt?, Header.ofTokens]
    by_cases hopen : opener.is "("
    · rw [if_pos hopen, if_pos hopen, hclauses]
      rfl
    · rw [if_neg hopen, if_neg hopen]

/-- Each assignment that combines begins with a byte that is its operator. -/
theorem compoundOperatorAt?_eq (text : String) : compoundOperatorAt? text = some (compoundOperators.lookup text) := by
  unfold compoundOperatorAt?
  by_cases hm : text ∈ compoundOperators.map Prod.fst
  · have hall : ∀ text ∈ compoundOperators.map Prod.fst, (firstByte? text).map some = some (compoundOperators.lookup text) := by
      decide
    rw [if_pos hm, hall text hm]
  · have hnone : compoundOperators.lookup text = none :=
      List.lookup_eq_none_iff.mpr fun pair hpair => by
        simpa using fun heq : text = pair.1 => hm (heq ▸ List.mem_map_of_mem hpair)
    rw [if_neg hm, hnone]

/-! ## The parser and its actions -/

/-- A parser with its tokens in one list and the number of those it has passed. -/
structure IndexedParser where
  tokens : List Token
  position : Nat
  forest : Forest
  options : Options
  lookup : Lookup
  clauseOpener : Option Location
  log : Array Event

/-- What a parser does that may come to an access out of bounds: nothing is left then, and otherwise an answer, or why it stops, and a
state. -/
def Checked (α : Type) : Type := IndexedParser → Option (Except ParseError α × IndexedParser)

instance : Monad Checked where
  pure a := fun s => some (.ok a, s)
  bind x f := fun s =>
    match x s with
    | none => none
    | some (.error e, q) => some (.error e, q)
    | some (.ok a, q) => f a q

namespace IndexedParser

/-- A parser before the first of some tokens. -/
def ofTokens (tokens : List Token) : IndexedParser := ⟨tokens, 0, .empty, {}, .relational, none, #[]⟩

/-- The same parser with a cursor between its tokens. -/
def view (s : IndexedParser) : Parser :=
  { cursor := .ofPosition s.tokens s.position, forest := s.forest, options := s.options, lookup := s.lookup,
    clauseOpener := s.clauseOpener, log := s.log }

/-- The position lies within the tokens, or right behind them. -/
def InBounds (s : IndexedParser) : Prop := s.position ≤ s.tokens.length

/-- The parser one token further. -/
def advanced (s : IndexedParser) : IndexedParser := { s with position := s.position + 1 }

/-- The place of the token passed last, or where a text begins. -/
def lastLocation (s : IndexedParser) : Location :=
  match s.position with
  | 0 => .start
  | i + 1 => ((s.tokens[i]?).map (·.location)).getD .start

/-- Where an error about `tokens` is reported. -/
def anchor (s : IndexedParser) (tokens : List Token) : Location :=
  match tokens with
  | t :: _ => t.location
  | [] => s.clauseOpener.getD s.lastLocation

end IndexedParser

namespace Checked

open IndexedParser

/-- An access, which ends the parser when it finds nothing. -/
def access {α : Type} (found : Option α) : Checked α := fun s => found.map fun a => (.ok a, s)

/-- Stops. -/
def fail {α : Type} (e : ParseError) : Checked α := fun s => some (.error e, s)

/-- Writes an event into the log. -/
def emit (event : Event) : Checked Unit := fun s => some (.ok (), { s with log := s.log.push event })

/-- Adds a node to the forest. -/
def addNode (node : Node) (location : Location) : Checked NodeId := fun s =>
  (s.forest.addAt? node location).map fun
    | .ok (id, forest) => (.ok id, { s with forest := forest })
    | .error e => (.error (.tree e location), s)

/-- Passes the next token. -/
def advance : Checked Token := fun s => (s.tokens[s.position]?).map fun t => (.ok t, s.advanced)

/-- Passes the tokens of a construct, when reading begins at `depth`: those before the one that ends it, and that one. -/
def collect (enclosure : Enclosure) (depth : Nat) (s : IndexedParser) :
    Option (Except ParseError (List Token × Token) × IndexedParser) :=
  if s.tokens.length ≤ s.position then some (.error (.unterminated enclosure s.lastLocation), s)
  else
    match s.tokens[s.position]? with
    | none => none
    | some t =>
      match enclosure.step s.options.matching depth t with
      | none => some (.ok ([], t), s.advanced)
      | some depth =>
        (collect enclosure depth s.advanced).map fun (answer, q) =>
          (answer.map fun (inner, closer) => (t :: inner, closer), q)
termination_by s.tokens.length - s.position
decreasing_by
  change s.tokens.length - (s.position + 1) < s.tokens.length - s.position
  omega

/-- Stops because some tokens are not the expression they were read as. -/
def refuse {α : Type} (m : Misfit) : Checked α := fun s => some (.error (.unsupported m.expression m.found (s.anchor m.tokens)), s)

/-- Reads a variable. -/
def parseTarget (tokens : List Token) : Checked NodeId :=
  match Target.ofTokens tokens with
  | .ok t => addNode (.var t.name t.type) t.location
  | .error m => refuse m

/-- Reads an initialization. -/
def parseInitialization (tokens : List Token) : Checked NodeId :=
  match tokens.reverse with
  | value :: _ :: target => do
    let left ← parseTarget target.reverse
    let first ← access tokens[0]?
    addNode (.assignment (.node left) (.raw value.value)) first.location
  | _ => refuse ⟨"assignment", tokens⟩

/-- Reads a condition. -/
def parseCondition (tokens : List Token) : Checked NodeId := fun s =>
  let place := s.anchor tokens
  match s.lookup tokens with
  | .error e => fail (.invalidCondition e place) s
  | .ok index =>
    match tokens[index]? with
    | none => fail (.invalidCondition (.outOfRange index tokens.length) place) s
    | some comparator =>
      let add : Checked NodeId := do
        let left ← access (slice? tokens 0 index)
        let right ← access (slice? tokens (index + 1) tokens.length)
        addNode (.loopCondition left comparator.value right) place
      add s

/-- Adds what an update computes and the assignment of it. -/
def addUpdate (u : Update) : Checked NodeId := do
  let step ← addNode (.binary u.operator (.raw u.target) (.raw u.value)) u.location
  addNode (.assignment (.raw u.target) (.node step)) u.location

/-- Reads an update. -/
def parseUpdate (tokens : List Token) : Checked NodeId :=
  match tokens with
  | [single] =>
    match splitStep? single.value with
    | some (name, operator) => addUpdate ⟨name, operator, "1", single.location⟩
    | none => refuse ⟨"update", tokens⟩
  | [target, step] =>
    match stepOperator? step.value with
    | some operator => addUpdate ⟨target.value, operator, "1", target.location⟩
    | none => refuse ⟨"update", tokens⟩
  | [target, assign, value] => do
    match ← access (compoundOperatorAt? assign.value) with
    | some operator => addUpdate ⟨target.value, operator, value.value, target.location⟩
    | none => refuse ⟨"update", tokens⟩
  | _ => refuse ⟨"update", tokens⟩

/-- Reads the tokens of a clause. -/
def within (clause : Clause) (parse : List Token → Checked NodeId) : Checked NodeId := fun s =>
  (parse clause.tokens { s with clauseOpener := some clause.opener.location }).map fun (answer, q) =>
    (answer, { q with clauseOpener := none })

/-- Reads a loop. -/
def parseLoop (header body : List Token) (location : Location) : Checked NodeId := do
  match ← access (headerAt? header) with
  | .error fault => fail (.malformedHeader fault.reason (fault.location location))
  | .ok clauses => do
    let initialization ← within clauses.initialization parseInitialization
    let condition ← within clauses.condition parseCondition
    let update ← within clauses.update parseUpdate
    addNode (.forLoop initialization condition update body) location

/-- Reads the loop behind a keyword that is passed already. -/
def parseConstruct (keyword : Location) : Checked NodeId := do
  emit (.found keyword)
  let (header, _) ← collect .header 0
  let (inner, closer) ← collect .body 0
  emit (.delimited header.length (inner ++ [closer]).length)
  let loop ← parseLoop header (inner ++ [closer]) keyword
  emit (.parsed loop)
  return loop

/-- Makes a loop a child of the root. -/
def attach (loop : NodeId) : Checked Unit := fun s =>
  (s.forest.addChildAt? Forest.root loop).map fun
    | .ok forest => (.ok (), { s with forest := forest })
    | .error e => (.error (.tree e ((s.forest.location? loop).getD default)), s)

/-- Passes a keyword, reads the loop behind it and makes it a child of the root. When it cannot be read, the nodes added for it are
taken back. -/
def addLoop : Checked Unit := fun s =>
  match (advance >>= fun keyword => parseConstruct keyword.location) s with
  | none => none
  | some (.ok loop, q) => attach loop q
  | some (.error e, q) => some (.error e, { q with forest := q.forest.truncate s.forest.size })

/-! ## Agreement -/

section

variable {α β : Type} {x : Checked α} {f : α → Checked β} {s q : IndexedParser}

theorem bind_of_ok {a : α} (h : x s = some (.ok a, q)) : (x >>= f) s = f a q := by
  change (match x s with
    | none => none
    | some (Except.error e, q) => some (Except.error e, q)
    | some (Except.ok a, q) => f a q) = _
  rw [h]

theorem bind_of_error {e : ParseError} (h : x s = some (.error e, q)) : (x >>= f) s = some (.error e, q) := by
  change (match x s with
    | none => none
    | some (Except.error e, q) => some (Except.error e, q)
    | some (Except.ok a, q) => f a q) = _
  rw [h]

/-- An access that finds something is none. -/
theorem access_some_bind (a : α) (f : α → Checked β) : access (some a) >>= f = f a := rfl

end

/-- Within bounds, the first has an answer and a state, keeps its tokens and the position within them, and does what the second
does. -/
def Agrees {α : Type} (x : Checked α) (y : Action α) : Prop :=
  ∀ s : IndexedParser, s.InBounds →
    ∃ q, x s = some ((y s.view).1, q) ∧ q.view = (y s.view).2 ∧ q.tokens = s.tokens ∧ q.InBounds

section

variable {α β : Type}

theorem Agrees.bind {x : Checked α} {y : Action α} {f : α → Checked β} {g : α → Action β} (hx : Agrees x y)
    (hf : ∀ a, Agrees (f a) (g a)) : Agrees (x >>= f) (y >>= g) := by
  intro s hs
  obtain ⟨q, hq, hview, htokens, hin⟩ := hx s hs
  rcases hy : y s.view with ⟨e | a, p⟩
  · rw [hy] at hq hview
    rw [Action.bind_of_error hy]
    exact ⟨q, bind_of_error hq, hview, htokens, hin⟩
  · rw [hy] at hq hview
    obtain ⟨r, hr, hview', htokens', hin'⟩ := hf a q hin
    obtain rfl : q.view = p := hview
    rw [Action.bind_of_ok hy]
    exact ⟨r, (bind_of_ok hq).trans hr, hview', htokens'.trans htokens, hin'⟩

theorem agrees_pure (a : α) : Agrees (pure a) (pure a) := fun s hs => ⟨s, rfl, rfl, rfl, hs⟩

theorem agrees_fail (e : ParseError) : Agrees (fail e : Checked α) (Action.fail e) := fun s hs => ⟨s, rfl, rfl, rfl, hs⟩

theorem agrees_emit (event : Event) : Agrees (emit event) (Action.emit event) := fun _ hs => ⟨_, rfl, rfl, rfl, hs⟩

theorem agrees_addNode (node : Node) (location : Location) : Agrees (addNode node location) (Action.addNode node location) := by
  intro s hs
  have hadd := s.forest.addAt?_eq node location
  have hview : s.view.forest = s.forest := rfl
  unfold addNode Action.addNode
  rw [hadd, hview]
  cases s.forest.add node location with
  | ok r => exact ⟨_, rfl, rfl, rfl, hs⟩
  | error e => exact ⟨s, rfl, rfl, rfl, hs⟩

end

end Checked

/-! ### The cursor -/

namespace IndexedParser

variable {s : IndexedParser}

theorem InBounds.advanced (h : s.position < s.tokens.length) : s.advanced.InBounds := h

/-- A token further is behind the token at the position. -/
theorem view_advanced {t : Token} (h : s.tokens[s.position]? = some t) :
    s.view.cursor.rest = t :: s.tokens.drop (s.position + 1) ∧
      s.advanced.view = s.view.skip t (s.tokens.drop (s.position + 1)) := by
  obtain ⟨hlt, rfl⟩ := List.getElem?_eq_some_iff.mp h
  constructor
  · exact List.drop_eq_getElem_cons hlt
  · have hpassed : (s.tokens.take (s.position + 1)).reverse = s.tokens[s.position] :: (s.tokens.take s.position).reverse := by
      rw [List.take_succ_eq_append_getElem hlt, List.reverse_append]
      rfl
    simp only [view, advanced, Parser.skip, Cursor.ofPosition, Cursor.moveTo, hpassed]
    rfl

/-- Within bounds, the place of the token passed last is the same. -/
theorem InBounds.lastLocation_view (hs : s.InBounds) : s.view.cursor.lastLocation = s.lastLocation := by
  have hpassed : s.view.cursor.passed = (s.tokens.take s.position).reverse := rfl
  unfold lastLocation Cursor.lastLocation
  rw [hpassed]
  unfold InBounds at hs
  cases hposition : s.position with
  | zero => rfl
  | succ i =>
    rw [hposition] at hs
    have hlast : (s.tokens.take (i + 1)).reverse = s.tokens[i] :: (s.tokens.take i).reverse := by
      rw [List.take_succ_eq_append_getElem hs, List.reverse_append]
      rfl
    rw [hlast]
    change s.tokens[i].location = ((s.tokens[i]?).map (·.location)).getD .start
    rw [List.getElem?_eq_getElem hs]
    rfl

theorem InBounds.anchor_view (hs : s.InBounds) (tokens : List Token) : s.view.anchor tokens = s.anchor tokens := by
  unfold Parser.anchor anchor
  rw [hs.lastLocation_view]
  rfl

end IndexedParser

/-! ### Functions that pass no token -/

namespace Checked

open IndexedParser

theorem refuse_bind {α β : Type} (m : Misfit) (f : α → Checked β) : refuse m >>= f = refuse m := rfl

theorem agrees_refuse {α : Type} (m : Misfit) : Agrees (refuse m : Checked α) (Parser.refuse m) := by
  intro s hs
  refine ⟨s, ?_, rfl, rfl, hs⟩
  rw [refuse, Parser.refuse, hs.anchor_view]

theorem agrees_parseTarget (tokens : List Token) : Agrees (parseTarget tokens) (Parser.parseTarget tokens) := by
  unfold parseTarget Parser.parseTarget
  cases Target.ofTokens tokens with
  | ok t => exact agrees_addNode _ _
  | error m => exact agrees_refuse m

/-- A variable begins with its first token. -/
theorem exists_first_of_target {tokens : List Token} {t : Target} (h : Target.ofTokens tokens = .ok t) :
    ∃ first rest, tokens = first :: rest ∧ first.location = t.location := by
  unfold Target.ofTokens at h
  split at h
  · next type name => exact ⟨type, [name], rfl, by rw [← Except.ok.inj h]⟩
  · next name => exact ⟨name, [], rfl, by rw [← Except.ok.inj h]⟩
  · cases h

theorem agrees_parseInitialization (tokens : List Token) :
    Agrees (parseInitialization tokens) (Parser.parseInitialization tokens) := by
  unfold parseInitialization Parser.parseInitialization Initialization.ofTokens
  rcases hreverse : tokens.reverse with _ | ⟨value, _ | ⟨assign, target⟩⟩
  · exact agrees_refuse _
  · exact agrees_refuse _
  · cases htarget : Target.ofTokens target.reverse with
    | error m =>
      have hstop : parseTarget target.reverse = refuse m := by rw [parseTarget, htarget]
      simp only [hstop, htarget, refuse_bind]
      exact agrees_refuse m
    | ok t =>
      obtain ⟨first, rest, heq, hlocation⟩ := exists_first_of_target htarget
      have htokens : tokens[0]? = some first := by
        have hall : tokens = (first :: rest) ++ [assign, value] := by
          rw [← heq, ← List.reverse_reverse tokens, hreverse]
          simp
        rw [hall]
        rfl
      have hadd : parseTarget target.reverse = addNode (.var t.name t.type) t.location := by rw [parseTarget, htarget]
      simp only [hadd, htarget, htokens, access_some_bind, hlocation]
      exact (agrees_addNode _ _).bind fun _ => agrees_addNode _ _

theorem agrees_parseCondition (tokens : List Token) : Agrees (parseCondition tokens) (Parser.parseCondition tokens) := by
  intro s hs
  have hlookup : s.view.lookup = s.lookup := rfl
  unfold parseCondition Parser.parseCondition Condition.ofTokens
  rw [hs.anchor_view, hlookup]
  cases s.lookup tokens with
  | error e => exact agrees_fail _ s hs
  | ok index =>
    simp only
    cases hindex : tokens[index]? with
    | none => exact agrees_fail _ s hs
    | some comparator =>
      -- the lookup is not trusted, but the test of its index bounds the slices on both sides of it
      have hlt : index < tokens.length := (List.getElem?_eq_some_iff.mp hindex).1
      simp only [slice?_zero (Nat.le_of_lt hlt), slice?_length (Nat.succ_le_of_lt hlt), access_some_bind]
      exact agrees_addNode _ _ s hs

theorem agrees_addUpdate (u : Update) : Agrees (addUpdate u) (Parser.addUpdate u) :=
  (agrees_addNode _ _).bind fun _ => agrees_addNode _ _

theorem agrees_parseUpdate (tokens : List Token) : Agrees (parseUpdate tokens) (Parser.parseUpdate tokens) := by
  unfold parseUpdate Parser.parseUpdate Update.ofTokens
  rcases tokens with _ | ⟨first, _ | ⟨second, _ | ⟨third, _ | ⟨fourth, rest⟩⟩⟩⟩
  · exact agrees_refuse _
  · simp only
    cases splitStep? first.value with
    | none => exact agrees_refuse _
    | some pair => exact agrees_addUpdate _
  · simp only
    cases stepOperator? second.value with
    | none => exact agrees_refuse _
    | some operator => exact agrees_addUpdate _
  · simp only [compoundOperatorAt?_eq, access_some_bind]
    cases compoundOperators.lookup second.value with
    | none => exact agrees_refuse _
    | some operator => exact agrees_addUpdate _
  · exact agrees_refuse _

theorem Agrees.within (clause : Clause) {parse : List Token → Checked NodeId} {parse' : List Token → Action NodeId}
    (h : ∀ tokens, Agrees (parse tokens) (parse' tokens)) : Agrees (within clause parse) (Parser.within clause parse') := by
  intro s hs
  obtain ⟨q, hq, hview, htokens, hin⟩ := h clause.tokens { s with clauseOpener := some clause.opener.location } hs
  refine ⟨{ q with clauseOpener := none }, ?_, ?_, htokens, hin⟩
  · rw [Checked.within, hq]
    rfl
  · exact congrArg (fun p : Parser => { p with clauseOpener := none }) hview

theorem agrees_parseLoop (header body : List Token) (location : Location) :
    Agrees (parseLoop header body location) (Parser.parseLoop header body location) := by
  unfold parseLoop Parser.parseLoop
  simp only [headerAt?_eq, access_some_bind]
  cases Header.ofTokens header with
  | error fault => exact agrees_fail _
  | ok clauses =>
    refine (Agrees.within clauses.initialization agrees_parseInitialization).bind fun initialization => ?_
    refine (Agrees.within clauses.condition agrees_parseCondition).bind fun condition => ?_
    refine (Agrees.within clauses.update agrees_parseUpdate).bind fun update => ?_
    exact agrees_addNode _ _

end Checked

end LoopForest
