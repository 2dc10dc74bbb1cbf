import LoopForest.Text.Token

/-!
# Nodes

A node of a forest is one construct of a program. It refers to other nodes by id, in fields that its kind fixes, and keeps the rest
of what it says as text or as tokens. `Node.fieldIds` lists the nodes it refers to, in the order in which its fields are declared:
these are the nodes it owns once it stands in a forest. What a node is called and what it says about itself beside that name
(`Node.title`, `Node.detail`) are what an outline shows on its first line.

Only the program, variables, assignments, binary expressions, loop conditions and for loops come out of the parser. The other kinds
are for whoever builds a forest by hand.
-/

namespace LoopForest

/-- A node's number in its forest. -/
abbrev NodeId : Type := Nat

/-- What an assignment, a binary expression, an array or a call works on: another node, or text kept as written. -/
inductive Operand where
  | node (id : NodeId)
  | raw (text : String)
  deriving DecidableEq, Repr

/-- The node an operand refers to, if it refers to one. -/
def Operand.nodeId? : Operand → Option NodeId
  | .node id => some id
  | .raw _ => none

/-- One construct of a program. -/
inductive Node where
  /-- The root; the constructs at the top of a program are its children. -/
  | program
  /-- A variable: declared when it has a type, named again when it has none. -/
  | var (name : String) (type : Option String)
  | assignment (left right : Operand)
  | binary (operator : String) (left right : Operand)
  /-- The test of a loop: the tokens on both sides of its comparator. -/
  | loopCondition (left : List Token) (comparator : String) (right : List Token)
  /-- A loop: the three clauses of its header, and its body as tokens. -/
  | forLoop (initialization condition update : NodeId) (body : List Token)
  | array (name : String) (size : Option Nat) (elements : List Operand)
  | struct (name : String) (fields : List NodeId)
  | macroDef (name : String) (body : List Token)
  /-- A branch; an else part without nodes is not the same as none. -/
  | ifStatement (condition : NodeId) (body : List NodeId) (elseBody : Option (List NodeId))
  | whileLoop (condition : NodeId) (body : List NodeId)
  | functionDeclaration (returnType name : String) (parameters body : List NodeId)
  | functionCall (name : String) (arguments : List Operand)
  deriving DecidableEq, Repr

namespace Node

/-- What a kind of node is called. -/
def title : Node → String
  | .program => "Program"
  | .var .. => "Variable"
  | .assignment .. => "Assignment"
  | .binary .. => "Binary Expression"
  | .loopCondition .. => "Loop Condition"
  | .forLoop .. => "For Loop"
  | .array .. => "Array"
  | .struct .. => "Struct"
  | .macroDef .. => "Macro"
  | .ifStatement .. => "If Statement"
  | .whileLoop .. => "While Loop"
  | .functionDeclaration .. => "Function Declaration"
  | .functionCall .. => "Function Call"

/-- What a node says beside its title, if its kind says anything: a name with a type, a size or a return type, or an operator. -/
def detail : Node → Option String
  | .var name (some type) => some (name ++ " (" ++ type ++ ")")
  | .var name none => some name
  | .binary operator _ _ => some operator
  | .loopCondition _ comparator _ => some comparator
  | .array name (some size) _ => some (name ++ "[" ++ toString size ++ "]")
  | .array name none _ => some (name ++ "[]")
  | .struct name _ => some name
  | .macroDef name _ => some name
  | .functionCall name _ => some name
  | .functionDeclaration returnType name _ _ => some (returnType ++ " " ++ name)
  | .program | .assignment .. | .forLoop .. | .ifStatement .. | .whileLoop .. => none

/-- The nodes a node refers to through its fields, in the order of the fields. -/
def fieldIds : Node → List NodeId
  | .program | .var .. | .loopCondition .. | .macroDef .. => []
  | .assignment left right => [left, right].filterMap Operand.nodeId?
  | .binary _ left right => [left, right].filterMap Operand.nodeId?
  | .forLoop initialization condition update _ => [initialization, condition, update]
  | .array _ _ elements => elements.filterMap Operand.nodeId?
  | .functionCall _ arguments => arguments.filterMap Operand.nodeId?
  | .struct _ fields => fields
  | .ifStatement condition body elseBody => condition :: (body ++ elseBody.getD [])
  | .whileLoop condition body => condition :: body
  | .functionDeclaration _ _ parameters body => parameters ++ body

/-- The node is a for loop. -/
def isForLoop : Node → Bool
  | .forLoop .. => true
  | _ => false

/-- The first line of a node in an outline. -/
def header (node : Node) : String :=
  match node.detail with
  | some detail => node.title ++ ": " ++ detail
  | none => node.title

end Node

end LoopForest
