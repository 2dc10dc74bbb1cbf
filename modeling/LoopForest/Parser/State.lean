import LoopForest.Parser.Error

/-!
# The state of a parser

A parser holds the tokens of a program with a cursor between those it has passed and those to come, the forest it has built so far,
and the choices it was given: how delimiters are matched, which text opens a loop, and how a condition's comparator is found. While
it reads a clause it also knows the token that opens the clause, which is where an error in a clause without tokens is reported
(`Parser.anchor`). What it notices on the way it writes into a log.

What a parser does is an `Action`: from a state to an answer and a state. An action that fails still leaves a state, because nodes
it had added before it failed stay in the forest. The cursor of an action only moves forward (`Action.Forward`), which is why a scan
of the whole program ends.
-/

namespace LoopForest

/-- Tokens passed, the last one first, and tokens to come. -/
structure Cursor where
  passed : List Token
  rest : List Token
  deriving DecidableEq, Repr

namespace Cursor

/-- The cursor before the first token. -/
def ofTokens (tokens : List Token) : Cursor := ⟨[], tokens⟩

/-- All tokens, in order. -/
def tokens (c : Cursor) : List Token := c.passed.reverse ++ c.rest

/-- How many tokens are passed. -/
def position (c : Cursor) : Nat := c.passed.length

/-- The place of the token passed last, or where a text begins. -/
def lastLocation (c : Cursor) : Location :=
  match c.passed with
  | [] => .start
  | t :: _ => t.location

/-- The cursor behind the tokens of `taken`, when `rest` are the tokens behind those. -/
def moveTo (c : Cursor) (taken rest : List Token) : Cursor := ⟨taken.reverse ++ c.passed, rest⟩

/-- The cursor behind the last token. -/
def toEnd (c : Cursor) : Cursor := c.moveTo c.rest []

end Cursor

/-- How a parser reads. -/
structure Options where
  /-- How the end of a header and of a body is found. -/
  matching : Matching := .balanced
  /-- The text that opens a loop. -/
  keyword : String := "for"
  deriving DecidableEq, Repr

/-- How much detail an event is. -/
inductive EventLevel where
  | debug | trace
  deriving DecidableEq, Repr

/-- What a parser notices on its way through a program. -/
inductive Event where
  /-- A token opens a loop. -/
  | found (keyword : Location)
  /-- The header and the body of a loop are cut out; they have this many tokens. -/
  | delimited (header body : Nat)
  /-- The node of a loop is built. -/
  | parsed (loop : NodeId)
  deriving DecidableEq, Repr

/-- An event in words. -/
def Event.message : Event → String
  | .found _ => "found for loop"
  | .delimited .. => "delimited for loop"
  | .parsed _ => "parsed for loop"

/-- The level of an event. -/
def Event.level : Event → EventLevel
  | .delimited .. => .trace
  | .found _ | .parsed _ => .debug

/-- A parser of a program. -/
structure Parser where
  cursor : Cursor
  forest : Forest := .empty
  options : Options := {}
  lookup : Lookup := .relational
  clauseOpener : Option Location := none
  log : Array Event := #[]

namespace Parser

/-- A parser before the first of some tokens. -/
def ofTokens (tokens : List Token) : Parser := { cursor := .ofTokens tokens }

/-- A parser of a text; a fault of the text is refused. -/
def ofSource (source : String) : Except ParseError Parser :=
  match tokensOf source with
  | .ok tokens => .ok (ofTokens tokens)
  | .error e => .error (.lex e)

/-- The parser with other options. -/
def withOptions (p : Parser) (options : Options) : Parser := { p with options := options }

/-- The parser with another way to find comparators. -/
def withLookup (p : Parser) (lookup : Lookup) : Parser := { p with lookup := lookup }

/-- Where an error about `tokens` is reported: at the first of them; without any, at the token that opens the clause being read; and
outside of clauses at the token passed last. -/
def anchor (p : Parser) (tokens : List Token) : Location :=
  match tokens with
  | t :: _ => t.location
  | [] => p.clauseOpener.getD p.cursor.lastLocation

end Parser

/-- Something a parser does: its answer, or why it stops, and the state it leaves in both cases. -/
def Action (α : Type) : Type := Parser → Except ParseError α × Parser

namespace Action

instance : Monad Action where
  pure a := fun p => (.ok a, p)
  bind x f := fun p =>
    match x p with
    | (.ok a, q) => f a q
    | (.error e, q) => (.error e, q)

/-- An action that answers is followed by the next one, in the state it leaves. -/
theorem bind_of_ok {α β : Type} {x : Action α} {f : α → Action β} {p q : Parser} {a : α} (h : x p = (.ok a, q)) :
    (x >>= f) p = f a q := by
  change (match x p with
    | (.ok a, q) => f a q
    | (.error e, q) => (.error e, q)) = _
  rw [h]

/-- An action that stops is the last one. -/
theorem bind_of_error {α β : Type} {x : Action α} {f : α → Action β} {p q : Parser} {e : ParseError}
    (h : x p = (.error e, q)) : (x >>= f) p = (.error e, q) := by
  change (match x p with
    | (.ok a, q) => f a q
    | (.error e, q) => (.error e, q)) = _
  rw [h]

/-- Stops. -/
def fail {α : Type} (e : ParseError) : Action α := fun p => (.error e, p)

/-- Writes an event into the log. -/
def emit (event : Event) : Action Unit := fun p => (.ok (), { p with log := p.log.push event })

/-- Adds a node to the forest. -/
def addNode (node : Node) (location : Location) : Action NodeId := fun p =>
  match p.forest.add node location with
  | .ok (id, forest) => (.ok id, { p with forest := forest })
  | .error e => (.error (.tree e location), p)

/-- Passes the tokens of a construct and answers how it was cut. When the tokens run out first, all of them are passed. -/
def enclosed (enclosure : Enclosure) : Action Enclosure.Cut := fun p =>
  match enclosure.cut? p.options.matching 0 p.cursor.rest with
  | some cut => (.ok cut, { p with cursor := p.cursor.moveTo cut.closed cut.rest })
  | none => (.error (.unterminated enclosure p.cursor.toEnd.lastLocation), { p with cursor := p.cursor.toEnd })

/-! ## Actions move forward -/

/-- The action leaves no more tokens to come than it finds. -/
def Forward {α : Type} (x : Action α) : Prop := ∀ p, (x p).2.cursor.rest.length ≤ p.cursor.rest.length

theorem forward_pure {α : Type} (a : α) : Forward (pure a : Action α) := fun _ => Nat.le_refl _

theorem Forward.bind {α β : Type} {x : Action α} {f : α → Action β} (hx : x.Forward) (hf : ∀ a, (f a).Forward) :
    (x >>= f).Forward := by
  intro p
  have h := hx p
  rcases hp : x p with ⟨e | a, q⟩
  · rw [hp] at h
    rw [bind_of_error hp]
    exact h
  · rw [hp] at h
    rw [bind_of_ok hp]
    exact Nat.le_trans (hf a q) h

theorem forward_fail {α : Type} (e : ParseError) : Forward (fail e : Action α) := fun _ => Nat.le_refl _

theorem forward_emit (event : Event) : (emit event).Forward := fun _ => Nat.le_refl _

theorem forward_addNode (node : Node) (location : Location) : (addNode node location).Forward := by
  intro p
  unfold addNode
  split <;> exact Nat.le_refl _

theorem forward_enclosed (enclosure : Enclosure) : (enclosed enclosure).Forward := by
  intro p
  unfold enclosed
  split
  · next cut h => exact Nat.le_of_lt (Enclosure.length_rest_lt h)
  · exact Nat.zero_le _

end Action

end LoopForest
