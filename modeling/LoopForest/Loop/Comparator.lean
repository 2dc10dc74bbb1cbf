import LoopForest.Text.Token

/-!
# The comparator of a condition

A condition is cut around one token, its comparator. Which token that is, a lookup decides: a function of the condition's tokens
that answers an index or the reason why there is none. A lookup is not trusted: whoever uses its answer checks that the index lies
inside the condition. The lookup in use unless another one is chosen, `Lookup.relational`, wants exactly one relational operator.
-/

namespace LoopForest

/-- Why a condition has no comparator. -/
inductive ComparatorError where
  | missing
  | ambiguous (count : Nat)
  | outOfRange (index length : Nat)
  deriving DecidableEq, Repr

/-- The report of a missing comparator. -/
def ComparatorError.message : ComparatorError → String
  | .missing => "no relational operator in condition"
  | .ambiguous count => toString count ++ " relational operators in condition, expected one"
  | .outOfRange index length =>
    "comparator index " ++ toString index ++ " is outside a condition of " ++ toString length ++ " tokens"

/-- Finds the comparator among the tokens of a condition. -/
abbrev Lookup : Type := List Token → Except ComparatorError Nat

/-- The operators that compare. -/
def relationalOperators : List String := ["<", "<=", ">", ">=", "==", "!="]

/-- The token's text is a relational operator. -/
def Token.isRelational (t : Token) : Bool := relationalOperators.contains t.value

namespace Lookup

/-- Where the relational operators stand among the tokens, in order. -/
def relationalIndices (tokens : List Token) : List Nat :=
  (tokens.zipIdx.filter fun (t, _) => t.isRelational).map Prod.snd

/-- The one relational operator of the condition; none at all, or more than one, is refused. The first one is taken when there is none
behind it, and is counted with those behind it when there are some. -/
def relational : Lookup := fun tokens =>
  let found := relationalIndices tokens
  match found.head?, found.tail.length with
  | none, _ => .error .missing
  | some index, 0 => .ok index
  | some _, behind => .error (.ambiguous (behind + 1))

/-- The same index for every condition, whether it lies inside or not. -/
def always (index : Nat) : Lookup := fun _ => .ok index

/-- The last token, whatever it is. -/
def last : Lookup := fun tokens => if tokens.isEmpty then .error .missing else .ok (tokens.length - 1)

/-- The first token whose text is one of `values`. -/
def firstOf (values : List String) : Lookup := fun tokens =>
  match tokens.findIdx? (fun t => values.contains t.value) with
  | some index => .ok index
  | none => .error .missing

/-- The same refusal for every condition. -/
def failing (error : ComparatorError) : Lookup := fun _ => .error error

end Lookup

end LoopForest
