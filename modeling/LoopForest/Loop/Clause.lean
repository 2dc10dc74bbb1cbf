import LoopForest.Loop.Comparator

/-!
# What the clauses of a header say

Each clause is read into what it says, without regard to where that will be kept: an initialization assigns a value to a target, a
condition has tokens on both sides of a comparator, and an update changes a name by an operator and a value. The three ways to write
an update, `n++`, `n ++` and `n += 1`, say the same thing and are read into the same `Update`.

Only the number of tokens and the text of a few of them matter. A clause that fits no reading is a `Misfit`, which names what was
expected and the tokens that were found instead.
-/

namespace LoopForest

/-- Tokens that are not the expression they were read as. -/
structure Misfit where
  expression : String
  tokens : List Token
  deriving DecidableEq, Repr

/-- The tokens of a misfit in words. -/
def Misfit.found (m : Misfit) : String :=
  if m.tokens.isEmpty then "no tokens"
  else toString m.tokens.length ++ " token(s) '" ++ Token.joined m.tokens ++ "'"

/-! ## Initialization -/

/-- A variable: its name, the type it is declared with unless it is only named, and where it begins. -/
structure Target where
  name : String
  type : Option String
  location : Location
  deriving DecidableEq, Repr

/-- A variable is a type and a name, or a name alone. -/
def Target.ofTokens : List Token → Except Misfit Target
  | [type, name] => .ok ⟨name.value, some type.value, type.location⟩
  | [name] => .ok ⟨name.value, none, name.location⟩
  | tokens => .error ⟨"variable", tokens⟩

/-- A value given to a variable. -/
structure Initialization where
  target : Target
  value : String
  deriving DecidableEq, Repr

/-- The last token is the value, the one before it stands for the assignment whatever it is, and the tokens ahead of the two are the
variable. -/
def Initialization.ofTokens (tokens : List Token) : Except Misfit Initialization :=
  match tokens.reverse with
  | value :: _ :: target =>
    match Target.ofTokens target.reverse with
    | .ok target => .ok ⟨target, value.value⟩
    | .error misfit => .error misfit
  | _ => .error ⟨"assignment", tokens⟩

/-! ## Condition -/

/-- A comparison: the tokens left and right of the comparator. -/
structure Condition where
  left : List Token
  comparator : Token
  right : List Token
  deriving DecidableEq, Repr

/-- Cuts tokens around the comparator that `lookup` finds. An index outside the tokens is refused. -/
def Condition.ofTokens (lookup : Lookup) (tokens : List Token) : Except ComparatorError Condition :=
  match lookup tokens with
  | .error e => .error e
  | .ok index =>
    match tokens[index]? with
    | some comparator => .ok ⟨tokens.take index, comparator, tokens.drop (index + 1)⟩
    | none => .error (.outOfRange index tokens.length)

/-! ## Update -/

/-- A change of a variable: what it is combined with and by which operator, and where the clause begins. -/
structure Update where
  target : String
  operator : String
  value : String
  location : Location
  deriving DecidableEq, Repr

/-- The operator of each assignment that combines. -/
def compoundOperators : List (String × String) :=
  [("+=", "+"), ("-=", "-"), ("*=", "*"), ("/=", "/"), ("%=", "%"), ("&=", "&"), ("|=", "|"), ("^=", "^")]

/-- The operator of a step by one. -/
def stepOperator? (text : String) : Option String :=
  if text = "++" then some "+" else if text = "--" then some "-" else none

/-- A name and the operator of the step by one that is written behind it in the same text. -/
def splitStep? (text : String) : Option (String × String) :=
  match text.toList.reverse with
  | '+' :: '+' :: c :: cs => some (String.ofList (c :: cs).reverse, "+")
  | '-' :: '-' :: c :: cs => some (String.ofList (c :: cs).reverse, "-")
  | _ => none

/-- An update is a name that ends in a step by one, a name and a step by one, or a name, an assignment that combines, and a value. -/
def Update.ofTokens (tokens : List Token) : Except Misfit Update :=
  match tokens with
  | [single] =>
    match splitStep? single.value with
    | some (name, operator) => .ok ⟨name, operator, "1", single.location⟩
    | none => .error ⟨"update", tokens⟩
  | [target, step] =>
    match stepOperator? step.value with
    | some operator => .ok ⟨target.value, operator, "1", target.location⟩
    | none => .error ⟨"update", tokens⟩
  | [target, assign, value] =>
    match compoundOperators.lookup assign.value with
    | some operator => .ok ⟨target.value, operator, value.value, target.location⟩
    | none => .error ⟨"update", tokens⟩
  | _ => .error ⟨"update", tokens⟩

end LoopForest
