import LoopForest.Proofs.Forest.Rendering

/-!
# The level only indents

The level at which a node is shown stands in front of its lines and nowhere else. Whatever is still to be shown can be moved deeper as
a whole (`Task.deeper`): the tasks of a node at a deeper level are its tasks moved deeper, whichever part of the node they come from
(`Entry.map_deeper_tasks`), and a walk over tasks that were moved deeper leaves the lines it would have left, moved deeper
(`Forest.work_deeper`). This needs nothing of the forest, because both walks open the same nodes in the same order.

The lines of a node in the rendering of its owner are therefore those it shows by itself, indented. `Node.inset` says by how much: one
level below the owner, or two when the owner lists the node under a name.
-/

namespace LoopForest

/-- Levels put one after the other indent by both. -/
theorem indentation_add (level k : Nat) : indentation (level + k) = indentation k ++ indentation level := by
  rw [Nat.add_comm, indentation, List.replicate_add, String.join_append]
  rfl

/-- The line, `k` levels deeper. -/
def Line.deeper (k : Nat) (l : Line) : Line := { l with level := l.level + k }

theorem Line.text_deeper (k : Nat) (l : Line) : (l.deeper k).text = indentation k ++ l.text := by
  rw [text, deeper, indentation_add, String.append_assoc]
  rfl

namespace Task

/-- What the task shows is shown `k` levels deeper. -/
def deeper (k : Nat) : Task → Task
  | .line l => .line (l.deeper k)
  | .node level id => .node (level + k) id

section Deeper

variable (k level : Nat)

@[simp] theorem deeper_line (l : Line) : (line l).deeper k = .line (l.deeper k) := rfl

@[simp] theorem deeper_node (id : NodeId) : (node level id).deeper k = .node (level + k) id := rfl

@[simp] theorem map_deeper_nodes (ids : List NodeId) : (nodes level ids).map (deeper k) = nodes (level + k) ids := by
  rw [nodes, List.map_map]
  rfl

@[simp] theorem deeper_operand (o : Operand) : (operand level o).deeper k = operand (level + k) o := by
  cases o <;> rfl

@[simp] theorem deeper_tokens (label : String) (toks : List Token) :
    (tokens level label toks).deeper k = tokens (level + k) label toks := rfl

@[simp] theorem map_deeper_block (label : String) (ids : List NodeId) :
    (block level label ids).map (deeper k) = block (level + k) label ids := by
  rw [block, List.map_cons, map_deeper_nodes, Nat.add_right_comm]
  rfl

end Deeper

/-- The task of an operand that refers to a node is that node. -/
theorem node_mem_operands {operands : List Operand} {c : NodeId} (hc : c ∈ operands.filterMap Operand.nodeId?) (level : Nat) :
    .node level c ∈ operands.map (operand level) := by
  obtain ⟨o, ho, hid⟩ := List.mem_filterMap.mp hc
  cases o with
  | raw text => cases hid
  | node id =>
    obtain rfl := Option.some.inj hid
    exact List.mem_map_of_mem ho

/-- The nodes of a block are one level deeper than its name. -/
theorem node_mem_block {ids : List NodeId} {c : NodeId} (hc : c ∈ ids) (level : Nat) (label : String) :
    .node (level + 1) c ∈ block level label ids :=
  List.mem_cons_of_mem _ (List.mem_map_of_mem hc)

end Task

/-- What the fields of a node show at a deeper level is what they show, moved deeper. -/
theorem Node.map_deeper_tasks (k level : Nat) (node : Node) :
    (node.tasks level).map (Task.deeper k) = node.tasks (level + k) := by
  cases node with
  | ifStatement condition body elseBody => cases elseBody <;> simp [tasks]
  | _ => simp [tasks]

/-- What an entry shows at a deeper level is what it shows, moved deeper. -/
theorem Entry.map_deeper_tasks (k level : Nat) (e : Entry) : (e.tasks level).map (Task.deeper k) = e.tasks (level + k) := by
  rw [tasks, List.map_append, Node.map_deeper_tasks, Task.map_deeper_nodes, tasks]

/-! ## Where an owner shows a node -/

/-- The nodes that a node lists under a name. -/
def Node.namedIds : Node → List NodeId
  | .ifStatement _ body elseBody => body ++ elseBody.getD []
  | .whileLoop _ body => body
  | .functionDeclaration _ _ parameters body => parameters ++ body
  | _ => []

/-- How many levels deeper than itself a node shows a node it owns. -/
def Node.inset (node : Node) (c : NodeId) : Nat := if c ∈ node.namedIds then 2 else 1

/-- The nodes listed under a name are one level deeper than the fields. -/
theorem Node.node_mem_tasks_of_named {node : Node} {c : NodeId} (hc : c ∈ node.namedIds) (level : Nat) :
    .node (level + 1) c ∈ node.tasks level := by
  cases node with
  | ifStatement condition body elseBody =>
    refine List.mem_cons_of_mem _ (List.mem_append.mpr ?_)
    rcases List.mem_append.mp hc with hc | hc
    · exact Or.inl (Task.node_mem_block hc level "Then")
    · cases elseBody with
      | none => cases hc
      | some ids => exact Or.inr (Task.node_mem_block hc level "Else")
  | whileLoop condition body => exact List.mem_cons_of_mem _ (Task.node_mem_block hc level "Body")
  | functionDeclaration returnType name parameters body =>
    rcases List.mem_append.mp hc with hc | hc
    · exact List.mem_append_left _ (Task.node_mem_block hc level "Parameters")
    · exact List.mem_append_right _ (Task.node_mem_block hc level "Body")
  | _ => cases hc

/-- The other nodes that a node refers to are at the level of the fields. -/
theorem Node.node_mem_tasks_of_not_named {node : Node} {c : NodeId} (hc : c ∈ node.fieldIds) (hnamed : c ∉ node.namedIds)
    (level : Nat) : .node level c ∈ node.tasks level := by
  cases node with
  | program | var | loopCondition | macroDef => cases hc
  | assignment left right => exact Task.node_mem_operands hc level
  | binary operator left right => exact Task.node_mem_operands hc level
  | array name size elements => exact Task.node_mem_operands hc level
  | functionCall name arguments => exact Task.node_mem_operands hc level
  | struct name fields => exact List.mem_map_of_mem hc
  | forLoop initialization condition update body => simpa [fieldIds, tasks, Task.tokens] using hc
  | functionDeclaration returnType name parameters body => exact absurd hc hnamed
  | ifStatement condition body elseBody =>
    obtain rfl := (List.mem_cons.mp hc).resolve_right hnamed
    exact List.mem_cons_self
  | whileLoop condition body =>
    obtain rfl := (List.mem_cons.mp hc).resolve_right hnamed
    exact List.mem_cons_self

/-- An entry shows each node it owns, at the inset of the node. -/
theorem Entry.node_mem_tasks {e : Entry} {c : NodeId} (hc : c ∈ e.node.fieldIds ++ e.children) (level : Nat) :
    .node (level + e.node.inset c) c ∈ e.tasks (level + 1) := by
  by_cases hnamed : c ∈ e.node.namedIds
  · rw [Node.inset, if_pos hnamed]
    exact List.mem_append_left _ (Node.node_mem_tasks_of_named hnamed (level + 1))
  · rw [Node.inset, if_neg hnamed]
    rcases List.mem_append.mp hc with hc | hc
    · exact List.mem_append_left _ (Node.node_mem_tasks_of_not_named hc hnamed (level + 1))
    · exact List.mem_append_right _ (List.mem_map_of_mem hc)

namespace Forest

/-! ## Two walks, one deeper than the other -/

/-- A walk over tasks that were moved deeper opens the same nodes and leaves the same lines, moved deeper. -/
theorem work_deeper (f : Forest) (k budget : Nat) (pending : List Task) :
    f.work budget (pending.map (Task.deeper k)) = (f.work budget pending).map (Line.deeper k) := by
  fun_induction work f budget pending with
  | case1 budget => exact work_nil f budget
  | case2 budget l rest ih => rw [List.map_cons, Task.deeper_line, work_line, ih, List.map_cons]
  | case3 level id rest budget hid ih => rw [List.map_cons, Task.deeper_node, work_unknown hid, ih]
  | case4 level id rest e hid ih =>
    -- no more nodes may be opened: the task is dropped in both walks
    rw [List.map_cons, Task.deeper_node, ← ih, work.eq_def]
    simp only [hid]
  | case5 level id rest e budget hid ih =>
    have htasks : (e.tasks (level + 1) ++ rest).map (Task.deeper k) =
        e.tasks (level + k + 1) ++ rest.map (Task.deeper k) := by
      rw [List.map_append, Entry.map_deeper_tasks, Nat.add_right_comm]
    rw [List.map_cons, Task.deeper_node, work_node hid, ← htasks, ih]
    rfl

theorem outline_deeper (f : Forest) (id : NodeId) (level k : Nat) :
    f.outline id (level + k) = (f.outline id level).map (Line.deeper k) :=
  f.work_deeper k f.size [.node level id]

/-- At a deeper level, a number renders to the same lines with the indentation of the levels more in front of each. -/
theorem render_deeper (f : Forest) (id : NodeId) (level k : Nat) :
    f.render id (level + k) = (f.render id level).map (indentation k ++ ·) := by
  rw [render, outline_deeper, render, List.map_map, List.map_map]
  exact List.map_congr_left fun l _ => l.text_deeper k

/-! ## A rendering inside another one -/

variable {f : Forest}

/-- The walk that shows a node makes, at some point, the walk of each node that the entry shows. -/
theorem exists_works_around (hf : f.Linked) (hg : f.Grounded) {p : NodeId} {e : Entry} (he : f.get? p = some e) {level : Nat}
    {task : Task} (htask : task ∈ e.tasks (level + 1)) :
    ∃ before drawn after, f.Works [.node level p] (before ++ drawn ++ after) ∧ f.Works [task] drawn := by
  obtain ⟨front, back, hsplit⟩ := List.append_of_mem htask
  obtain ⟨before, hbefore, -⟩ := exists_works_taskLines hf hg front
  obtain ⟨drawn, hdrawn, -⟩ := exists_works_taskLines hf hg [task]
  obtain ⟨after, hafter, -⟩ := exists_works_taskLines hf hg back
  have hworks : f.Works (e.tasks (level + 1) ++ []) (before ++ drawn ++ after) := by
    rw [hsplit, List.append_nil, List.append_assoc]
    exact hbefore.append (hdrawn.append hafter)
  exact ⟨⟨⟨level, e.node.header⟩, some p⟩ :: before, drawn, after, .node he hworks, hdrawn⟩

/-- In a forest that calls build, a number renders `k` levels deeper to the lines it renders to, with `k` indentations in front of each.
So the lines that the rendering of an owner has for a node and all that is below it are the rendering of the node at the top, with
the indentation of the owner's level and the inset of the node in front of each line. They stand together. -/
theorem render_indented (hf : f.Reached) (id : NodeId) (m k : Nat) :
    f.render id (m + k) = (f.render id m).map (indentation k ++ ·) ∧
      ∀ p, f.parent? id = some p → ∃ node, f.node? p = some node ∧ ∃ before drawn after,
        f.Works [.node m p] (before ++ drawn ++ after) ∧ f.render p m = (before ++ drawn ++ after).map (·.line.text) ∧
        f.Preorder id (Drawn.nodes drawn) ∧
        drawn.map (·.line.text) = (f.render id 0).map (indentation (m + node.inset id) ++ ·) := by
  refine ⟨f.render_deeper id m k, fun p hp => ?_⟩
  have hlinked := hf.linked
  have hgrounded := hf.grounded
  obtain ⟨e, he⟩ := exists_get? (hlinked.parent_lt hp)
  have howned : id ∈ e.node.fieldIds ++ e.children := (mem_owned_of_get? he).mp ((hlinked.mem_owned_iff p id).mpr hp)
  obtain ⟨before, drawn, after, hworks, hdrawn⟩ := exists_works_around hlinked hgrounded he (e.node_mem_tasks howned m)
  refine ⟨e.node, node?_of_get? he, before, drawn, after, hworks, hworks.render_eq hlinked hgrounded, ?_, ?_⟩
  · exact hdrawn.preorder hlinked hgrounded (lt_size_of_parent? hp)
  · rw [← hdrawn.render_eq hlinked hgrounded, ← f.render_deeper, Nat.zero_add]

/-- The statement at a node that a loop in the program lists under a name. -/
theorem render_indented_underName :
    let f := empty.run [.add (.var "c" none) ⟨1, 1⟩, .add (.assignment (.raw "x") (.raw "1")) ⟨2, 1⟩, .add (.whileLoop 1 [2]) ⟨1, 1⟩,
      .addChild 0 3]
    f.parent? 2 = some 3 ∧ f.render 2 0 = ["Assignment", "  Operand: x", "  Operand: 1"] ∧
      f.render 3 1 = ["  While Loop", "    Variable: c", "    Body:", "      Assignment", "        Operand: x",
        "        Operand: 1"] ∧
      f.render 2 (1 + 2) = (f.render 2 1).map (indentation 2 ++ ·) ∧
      ∀ p, f.parent? 2 = some p → ∃ node, f.node? p = some node ∧ ∃ before drawn after,
        f.Works [.node 1 p] (before ++ drawn ++ after) ∧ f.render p 1 = (before ++ drawn ++ after).map (·.line.text) ∧
        f.Preorder 2 (Drawn.nodes drawn) ∧
        drawn.map (·.line.text) = (f.render 2 0).map (indentation (1 + node.inset 2) ++ ·) := by
  intro f
  have hparent : f.parent? 2 = some 3 := by decide +kernel
  have hown : f.render 2 0 = ["Assignment", "  Operand: x", "  Operand: 1"] := by cbv
  have hinside : f.render 3 1 = ["  While Loop", "    Variable: c", "    Body:", "      Assignment", "        Operand: x",
      "        Operand: 1"] := by cbv
  exact ⟨hparent, hown, hinside, render_indented ⟨_, rfl⟩ 2 1 2⟩

end Forest

end LoopForest
