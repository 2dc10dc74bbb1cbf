import LoopForest.Text.Token

/-!
# The header of a loop

A header is an opening parenthesis and three clauses between semicolons. `splitClauses` cuts the tokens behind the parenthesis into
clauses, each with the token right before it, so that a clause without tokens still has a place. A clause without tokens counts
wherever it stands, except behind the last semicolon: a header may close with one.
-/

namespace LoopForest

/-- A clause of a header: the parenthesis or semicolon right before it, and its tokens. -/
structure Clause where
  opener : Token
  tokens : List Token
  deriving DecidableEq, Repr

/-- Cuts tokens that stand behind `opener` into clauses. -/
def splitClauses (opener : Token) : List Token → List Clause
  | [] => []
  | t :: ts =>
    if t.is ";" then ⟨opener, []⟩ :: splitClauses t ts
    else
      match splitClauses opener ts with
      | [] => [⟨opener, [t]⟩]
      | clause :: clauses => { clause with tokens := t :: clause.tokens } :: clauses

/-- Why some tokens are not a header. -/
inductive HeaderFault where
  | empty
  | unopened (found : Token)
  | clauseCount (opener : Token) (count : Nat)
  deriving DecidableEq, Repr

namespace HeaderFault

/-- A fault of a header in words. -/
def reason : HeaderFault → String
  | .empty => "empty header"
  | .unopened found => "expected '(' after 'for', found " ++ found.describe
  | .clauseCount _ count => "expected 3 ';'-separated clauses, found " ++ toString count

/-- Where a fault shows: at the first token of the header, or at the loop's `keyword` when the header has no token. -/
def location (keyword : Location) : HeaderFault → Location
  | .empty => keyword
  | .unopened found => found.location
  | .clauseCount opener _ => opener.location

end HeaderFault

/-- The three clauses of a header. -/
structure Header where
  initialization : Clause
  condition : Clause
  update : Clause
  deriving DecidableEq, Repr

/-- Reads a header: the opening parenthesis and exactly three clauses. The closing parenthesis is not part of it. -/
def Header.ofTokens : List Token → Except HeaderFault Header
  | [] => .error .empty
  | opener :: ts =>
    if opener.is "(" then
      match splitClauses opener ts with
      | [initialization, condition, update] => .ok ⟨initialization, condition, update⟩
      | clauses => .error (.clauseCount opener clauses.length)
    else .error (.unopened opener)

end LoopForest
