import LoopForest.Forest.Basic

/-!
# Outlines

An outline shows a node and everything below it, a line for each node and each part of a node. A node begins with its header line;
what its fields hold follows one level deeper in the order of the fields, and then the children attached to it. A list of nodes that
has a name, such as the body of a branch, shows the name on a line of its own and its nodes one level deeper still.

A line carries its level as a number and becomes text in one place, `Line.text`. What is still to be shown is kept as a list of
tasks, the next one first, so that a deep forest costs no more than a flat one. A walk opens at most as many nodes as there are; in
a forest without circles no node is opened twice, so this never cuts an outline short.
-/

namespace LoopForest

/-- What one more level puts in front of a line. -/
def indent : String := "  "

/-- What `level` levels put in front of a line. -/
def indentation (level : Nat) : String := String.join (List.replicate level indent)

/-- A line of an outline: how deep it stands and what it says. -/
structure Line where
  level : Nat
  content : String
  deriving DecidableEq, Repr

/-- A line as text. -/
def Line.text (l : Line) : String := indentation l.level ++ l.content

/-- A step of showing a forest: a line as it is, or a node with everything below it. -/
inductive Task where
  | line (l : Line)
  | node (level : Nat) (id : NodeId)
  deriving DecidableEq, Repr

namespace Task

/-- Nodes, one after the other. -/
def nodes (level : Nat) (ids : List NodeId) : List Task := ids.map (.node level)

/-- An operand: the node it refers to, or its text on a line of its own. -/
def operand (level : Nat) : Operand → Task
  | .node id => .node level id
  | .raw text => .line ⟨level, "Operand: " ++ text⟩

/-- Tokens on a line of their own, under a name. -/
def tokens (level : Nat) (label : String) (tokens : List Token) : Task :=
  .line ⟨level, label ++ ": " ++ Token.joined tokens⟩

/-- A named list of nodes: the name, and the nodes one level deeper. -/
def block (level : Nat) (label : String) (ids : List NodeId) : List Task :=
  .line ⟨level, label ++ ":"⟩ :: nodes (level + 1) ids

end Task

/-- What the fields of a node show, when `level` is one level below the node. -/
def Node.tasks (level : Nat) : Node → List Task
  | .program | .var .. => []
  | .assignment left right => [.operand level left, .operand level right]
  | .binary _ left right => [.operand level left, .operand level right]
  | .loopCondition left _ right => [.tokens level "Left" left, .tokens level "Right" right]
  | .forLoop initialization condition update body =>
    [.node level initialization, .node level condition, .node level update, .tokens level "Body" body]
  | .array _ _ elements => elements.map (.operand level)
  | .struct _ fields => Task.nodes level fields
  | .macroDef _ body => [.tokens level "Body" body]
  | .ifStatement condition body elseBody =>
    .node level condition :: (Task.block level "Then" body ++
      match elseBody with
      | some ids => Task.block level "Else" ids
      | none => [])
  | .whileLoop condition body => .node level condition :: Task.block level "Body" body
  | .functionDeclaration _ _ parameters body =>
    Task.block level "Parameters" parameters ++ Task.block level "Body" body
  | .functionCall _ arguments => arguments.map (.operand level)

/-- What an entry shows below its header line: the fields of its node, then its children. -/
def Entry.tasks (level : Nat) (e : Entry) : List Task := e.node.tasks level ++ Task.nodes level e.children

namespace Forest

/-- Works off the tasks in order and opens at most `budget` nodes. A node that does not exist shows nothing. -/
def work (f : Forest) (budget : Nat) (pending : List Task) : List Line :=
  match pending with
  | [] => []
  | .line l :: rest => l :: f.work budget rest
  | .node level id :: rest =>
    match f.get? id, budget with
    | none, budget => f.work budget rest
    | some _, 0 => f.work 0 rest
    | some e, budget + 1 => ⟨level, e.node.header⟩ :: f.work budget (e.tasks (level + 1) ++ rest)
termination_by (budget, pending.length)

theorem work_nil (f : Forest) (budget : Nat) : f.work budget [] = [] := by
  rw [work]

theorem work_line (f : Forest) (budget : Nat) (l : Line) (pending : List Task) :
    f.work budget (.line l :: pending) = l :: f.work budget pending := by
  rw [work]

theorem work_unknown {f : Forest} {id : NodeId} (hid : f.get? id = none) (budget level : Nat) (pending : List Task) :
    f.work budget (.node level id :: pending) = f.work budget pending := by
  rw [work]
  exact hid

/-- A node is shown in place of its task, before all that is pending. -/
theorem work_node {f : Forest} {id : NodeId} {e : Entry} (hid : f.get? id = some e) (budget level : Nat)
    (pending : List Task) :
    f.work (budget + 1) (.node level id :: pending) =
      ⟨level, e.node.header⟩ :: f.work budget (e.tasks (level + 1) ++ pending) := by
  rw [work.eq_def]
  simp only [hid]

/-- The outline of a node and everything below it, with the node's header at `level`. -/
def outline (f : Forest) (id : NodeId) (level : Nat) : List Line := f.work f.size [.node level id]

/-- The outline of a node as lines of text. -/
def render (f : Forest) (id : NodeId) (level : Nat) : List String := (f.outline id level).map Line.text

/-- The outline of a node as one text, a line break between any two lines. -/
def toText (f : Forest) (id : NodeId) : String := String.intercalate "\n" (f.render id 0)

/-- The outline of the whole program as one text. -/
def display (f : Forest) : String := f.toText root

end Forest

end LoopForest
