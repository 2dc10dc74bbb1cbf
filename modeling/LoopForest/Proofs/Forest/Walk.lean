import LoopForest.Forest.Outline
import LoopForest.Proofs.Forest.Subtree
import Mathlib.Algebra.GroupWithZero.Nat

/-!
# The walk of an outline

`Works` is the walk that shows a forest, without a bound on the nodes it opens: a derivation is a walk that comes to its end. It
keeps with each line the node whose header the line is, so that the nodes a walk opens can be read off what it leaves.

A walk works off its tasks one after the other (`Works.append`), and of each node it opens everything below it (`Preorder.opens`): the
nodes in preorder, because the tasks of a node name the nodes it owns in that order (`Entry.nodeIds_tasks`). Hence no walk opens more
nodes than there are, and the bound of `Forest.work` never cuts one short (`Works.outline_eq`).
-/

namespace LoopForest

/-! ## Tasks -/

/-- The node of a task. -/
def Task.nodeId? : Task → Option NodeId
  | .line _ => none
  | .node _ id => some id

/-- The nodes of some tasks, in order. -/
def Task.nodeIds (tasks : List Task) : List NodeId := tasks.filterMap Task.nodeId?

/-- How many of some tasks are lines. -/
def Task.lineCount (tasks : List Task) : Nat := tasks.countP fun t => t.nodeId?.isNone

/-- How many lines of its own a node shows below its header: the texts among its operands, and the lines of tokens and of names. -/
def Node.ownLines : Node → Nat
  | .program | .var .. | .struct .. => 0
  | .assignment left right | .binary _ left right => [left, right].countP fun o => o.nodeId?.isNone
  | .loopCondition .. | .functionDeclaration .. => 2
  | .forLoop .. | .macroDef .. | .whileLoop .. => 1
  | .array _ _ elements => elements.countP fun o => o.nodeId?.isNone
  | .ifStatement _ _ elseBody => if elseBody.isSome then 2 else 1
  | .functionCall _ arguments => arguments.countP fun o => o.nodeId?.isNone

namespace Task

@[simp] theorem nodeIds_nil : nodeIds [] = [] := rfl

@[simp] theorem nodeIds_line (l : Line) (tasks : List Task) : nodeIds (.line l :: tasks) = nodeIds tasks := rfl

@[simp] theorem nodeIds_node (level : Nat) (id : NodeId) (tasks : List Task) :
    nodeIds (.node level id :: tasks) = id :: nodeIds tasks := rfl

@[simp] theorem nodeIds_append (tasks more : List Task) : nodeIds (tasks ++ more) = nodeIds tasks ++ nodeIds more :=
  List.filterMap_append

@[simp] theorem nodeIds_nodes (level : Nat) (ids : List NodeId) : nodeIds (nodes level ids) = ids := by
  induction ids with
  | nil => rfl
  | cons id ids ih => exact congrArg (id :: ·) ih

@[simp] theorem nodeIds_operands (level : Nat) (operands : List Operand) :
    nodeIds (operands.map (operand level)) = operands.filterMap Operand.nodeId? := by
  rw [nodeIds, List.filterMap_map]
  refine List.filterMap_congr fun o _ => ?_
  cases o <;> rfl

@[simp] theorem lineCount_nil : lineCount [] = 0 := rfl

@[simp] theorem lineCount_line (l : Line) (tasks : List Task) : lineCount (.line l :: tasks) = lineCount tasks + 1 :=
  List.countP_cons_of_pos rfl

@[simp] theorem lineCount_node (level : Nat) (id : NodeId) (tasks : List Task) :
    lineCount (.node level id :: tasks) = lineCount tasks :=
  List.countP_cons_of_neg nofun

@[simp] theorem lineCount_append (tasks more : List Task) : lineCount (tasks ++ more) = lineCount tasks + lineCount more :=
  List.countP_append

@[simp] theorem lineCount_nodes (level : Nat) (ids : List NodeId) : lineCount (nodes level ids) = 0 := by
  induction ids with
  | nil => rfl
  | cons id ids ih => exact (lineCount_node level id _).trans ih

@[simp] theorem lineCount_operands (level : Nat) (operands : List Operand) :
    lineCount (operands.map (operand level)) = operands.countP fun o => o.nodeId?.isNone := by
  rw [lineCount, List.countP_map]
  refine List.countP_congr fun o _ => ?_
  cases o <;> rfl

end Task

/-- The fields of a node show the nodes it refers to, in the order of the fields. -/
theorem Node.nodeIds_tasks (level : Nat) (node : Node) : Task.nodeIds (node.tasks level) = node.fieldIds := by
  cases node with
  | assignment left right => exact Task.nodeIds_operands level [left, right]
  | binary operator left right => exact Task.nodeIds_operands level [left, right]
  | ifStatement condition body elseBody => cases elseBody <;> simp [Node.tasks, Node.fieldIds, Task.block]
  | _ => simp [Node.tasks, Node.fieldIds, Task.block, Task.tokens]

/-- The fields of a node show as many lines of their own as the node has. -/
theorem Node.lineCount_tasks (level : Nat) (node : Node) : Task.lineCount (node.tasks level) = node.ownLines := by
  cases node with
  | assignment left right => exact Task.lineCount_operands level [left, right]
  | binary operator left right => exact Task.lineCount_operands level [left, right]
  | ifStatement condition body elseBody => cases elseBody <;> simp [Node.tasks, Node.ownLines, Task.block]
  | _ => simp [Node.tasks, Node.ownLines, Task.block, Task.tokens]

/-- What an entry shows names the nodes it owns, in their order. -/
theorem Entry.nodeIds_tasks (level : Nat) (e : Entry) : Task.nodeIds (e.tasks level) = e.node.fieldIds ++ e.children := by
  rw [Entry.tasks, Task.nodeIds_append, Node.nodeIds_tasks, Task.nodeIds_nodes]

theorem Entry.lineCount_tasks (level : Nat) (e : Entry) : Task.lineCount (e.tasks level) = e.node.ownLines := by
  rw [Entry.tasks, Task.lineCount_append, Node.lineCount_tasks, Task.lineCount_nodes, Nat.add_zero]

/-! ## Walks -/

/-- A line a walk leaves, and the node whose header it is when it is one. -/
structure Drawn where
  line : Line
  opened : Option NodeId
  deriving DecidableEq, Repr

/-- The nodes a walk has opened, in the order of their headers. -/
def Drawn.nodes (drawn : List Drawn) : List NodeId := drawn.filterMap Drawn.opened

namespace Forest

/-- The walk that works off these tasks comes to its end and leaves these lines. The tasks of a node go before all that is pending. -/
inductive Works (f : Forest) : List Task → List Drawn → Prop where
  | done : Works f [] []
  | line {l : Line} {pending : List Task} {drawn : List Drawn} (h : Works f pending drawn) :
    Works f (.line l :: pending) (⟨l, none⟩ :: drawn)
  | unknown {level : Nat} {id : NodeId} {pending : List Task} {drawn : List Drawn} (hid : f.get? id = none)
    (h : Works f pending drawn) : Works f (.node level id :: pending) drawn
  | node {level : Nat} {id : NodeId} {e : Entry} {pending : List Task} {drawn : List Drawn} (hid : f.get? id = some e)
    (h : Works f (e.tasks (level + 1) ++ pending) drawn) :
    Works f (.node level id :: pending) (⟨⟨level, e.node.header⟩, some id⟩ :: drawn)

variable {f : Forest}

namespace Works

/-- Two walks, one after the other, are a walk over the tasks of both. -/
theorem append {tasks more : List Task} {drawn after : List Drawn} (h : f.Works tasks drawn) (h' : f.Works more after) :
    f.Works (tasks ++ more) (drawn ++ after) := by
  induction h with
  | done => exact h'
  | line _ ih => exact .line ih
  | unknown hid _ ih => exact .unknown hid ih
  | node hid _ ih =>
    rw [List.append_assoc] at ih
    exact .node hid ih

/-- A walk leaves the same lines whenever it is made. -/
theorem unique {tasks : List Task} {drawn drawn' : List Drawn} (h : f.Works tasks drawn) (h' : f.Works tasks drawn') :
    drawn = drawn' := by
  induction h generalizing drawn' with
  | done =>
    cases h'
    rfl
  | line _ ih =>
    cases h' with
    | line h' => rw [ih h']
  | unknown hid _ ih =>
    cases h' with
    | unknown _ h' => exact ih h'
    | node hid' _ => rw [hid] at hid'; cases hid'
  | node hid _ ih =>
    cases h' with
    | unknown hid' _ => rw [hid] at hid'; cases hid'
    | node hid' h' =>
      obtain rfl := Option.some.inj (hid.symm.trans hid')
      rw [ih h']

/-- A bound that lets every node of a walk be opened does not cut the walk short. -/
theorem work_eq {tasks : List Task} {drawn : List Drawn} (h : f.Works tasks drawn) {budget : Nat}
    (hbudget : (Drawn.nodes drawn).length ≤ budget) : f.work budget tasks = drawn.map Drawn.line := by
  induction h generalizing budget with
  | done => exact work_nil f budget
  | line _ ih =>
    rw [work_line, ih hbudget]
    rfl
  | unknown hid _ ih =>
    rw [work_unknown hid]
    exact ih hbudget
  | node hid _ ih =>
    cases budget with
    | zero => cases hbudget
    | succ budget =>
      rw [work_node hid, ih (Nat.le_of_succ_le_succ hbudget)]
      rfl

end Works

/-! ## Every walk comes to its end -/

/-- How many lines of its own a node shows below its header; none for a number not given out. -/
def ownLines (f : Forest) (id : NodeId) : Nat := ((f.node? id).map Node.ownLines).getD 0

/-- How many lines some nodes show: each one its header and its own. -/
def lineTotal (f : Forest) (nodes : List NodeId) : Nat := (nodes.map fun d => 1 + f.ownLines d).sum

/-- At every level, the walk that shows the node opens these nodes in this order and leaves a line for each of them and its own. -/
def Opens (f : Forest) (id : NodeId) (nodes : List NodeId) : Prop :=
  ∀ level, ∃ drawn, f.Works [.node level id] drawn ∧ Drawn.nodes drawn = nodes ∧ drawn.length = f.lineTotal nodes

theorem lineTotal_append (nodes more : List NodeId) : f.lineTotal (nodes ++ more) = f.lineTotal nodes + f.lineTotal more := by
  rw [lineTotal, List.map_append, List.sum_append]
  rfl

/-- A walk over some tasks shows what their nodes show, in order, and the lines between them. -/
theorem exists_works_tasks {below : NodeId → List NodeId} {tasks : List Task}
    (h : ∀ c ∈ Task.nodeIds tasks, f.Opens c (below c)) :
    ∃ drawn, f.Works tasks drawn ∧ Drawn.nodes drawn = (Task.nodeIds tasks).flatMap below ∧
      drawn.length = Task.lineCount tasks + f.lineTotal ((Task.nodeIds tasks).flatMap below) := by
  induction tasks with
  | nil => exact ⟨[], .done, rfl, rfl⟩
  | cons task tasks ih =>
    cases task with
    | line l =>
      obtain ⟨drawn, hworks, hnodes, hlength⟩ := ih h
      refine ⟨_, .line hworks, hnodes, ?_⟩
      rw [List.length_cons, hlength, Task.lineCount_line, Task.nodeIds_line]
      omega
    | node level c =>
      rw [Task.nodeIds_node] at h ⊢
      obtain ⟨hc, htasks⟩ := List.forall_mem_cons.mp h
      obtain ⟨first, hfirst, hfirstNodes, hfirstLength⟩ := hc level
      obtain ⟨drawn, hworks, hnodes, hlength⟩ := ih htasks
      refine ⟨first ++ drawn, hfirst.append hworks, ?_, ?_⟩
      · rw [Drawn.nodes, List.filterMap_append, List.flatMap_cons, ← hfirstNodes, ← hnodes]
        rfl
      · rw [List.length_append, hfirstLength, hlength, Task.lineCount_node, List.flatMap_cons, lineTotal_append]
        omega

/-- The walk that shows a node opens the nodes of its preorder. -/
theorem Preorder.opens {id : NodeId} {nodes : List NodeId} (h : f.Preorder id nodes) : f.Opens id nodes := by
  induction h with
  | @node id e below he _ ih =>
    intro level
    rw [← Entry.nodeIds_tasks (level + 1)] at ih ⊢
    obtain ⟨drawn, hworks, hnodes, hlength⟩ := exists_works_tasks ih
    rw [← List.append_nil (e.tasks (level + 1))] at hworks
    refine ⟨_, .node he hworks, congrArg (id :: ·) hnodes, ?_⟩
    have hown : f.ownLines id = e.node.ownLines := by simp [ownLines, node?_of_get? he]
    have htotal : f.lineTotal (id :: (Task.nodeIds (e.tasks (level + 1))).flatMap below) =
        1 + f.ownLines id + f.lineTotal ((Task.nodeIds (e.tasks (level + 1))).flatMap below) := rfl
    rw [List.length_cons, hlength, Entry.lineCount_tasks, htotal, hown]
    omega

/-- Every walk from a node comes to its end and opens no more nodes than there are, so that the outline is what it leaves. -/
theorem exists_works (hf : f.Linked) (hg : f.Grounded) (id : NodeId) (level : Nat) :
    ∃ drawn, f.Works [.node level id] drawn ∧ f.outline id level = drawn.map Drawn.line := by
  rcases Nat.lt_or_ge id f.size with hid | hid
  · obtain ⟨nodes, hnodes⟩ := Preorder.exists_of_lt hf hg hid
    obtain ⟨drawn, hworks, hopened, -⟩ := hnodes.opens level
    exact ⟨drawn, hworks, hworks.work_eq (hopened ▸ hnodes.length_le hf hg)⟩
  · have hworks : f.Works [.node level id] [] := .unknown ((get?_eq_none_iff f id).mpr hid) .done
    exact ⟨[], hworks, hworks.work_eq (Nat.zero_le _)⟩

/-- A walk from a node leaves the outline. -/
theorem Works.outline_eq (hf : f.Linked) (hg : f.Grounded) {id : NodeId} {level : Nat} {drawn : List Drawn}
    (h : f.Works [.node level id] drawn) : f.outline id level = drawn.map Drawn.line := by
  obtain ⟨drawn', hworks, heq⟩ := exists_works hf hg id level
  rw [heq, h.unique hworks]

/-- The walk that shows a node opens the nodes below it in preorder. -/
theorem Works.preorder (hf : f.Linked) (hg : f.Grounded) {id : NodeId} {level : Nat} {drawn : List Drawn}
    (h : f.Works [.node level id] drawn) (hid : id < f.size) : f.Preorder id (Drawn.nodes drawn) := by
  obtain ⟨nodes, hnodes⟩ := Preorder.exists_of_lt hf hg hid
  obtain ⟨drawn', hworks, hopened, -⟩ := hnodes.opens level
  rwa [h.unique hworks, hopened]

end Forest

end LoopForest
