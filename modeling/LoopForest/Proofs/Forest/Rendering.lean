import LoopForest.Proofs.Forest.Walk
import Mathlib

/-!
# What a rendering shows

`Shown` says in recursive form which lines a node shows, without a work list and without a bound: its header, then what its fields
hold, then its children, where the lines of a node below are again those it shows. `render_iff_shown` says that the work list renders
the same lines, in every forest that calls build and for every number and level.

`render_preorder` says which nodes these lines are about: those with the node in their lineage, each one once and in preorder. So a
rendering, which looks at fields and child lists alone, shows just the nodes that the links upwards lead from.

What a node shows without the nodes below it is `linesAlone`. A property of lines that those of every node have alone is one that all
lines of a rendering have (`forall_mem_render`).
-/

namespace LoopForest

/-! ## The recursive form -/

section Contents

variable (sub : Nat → NodeId → List String) (level : Nat)

/-- What an operand shows: the lines of the node it refers to, or one line with its text. -/
def Operand.shownLines : Operand → List String
  | .node id => sub level id
  | .raw text => [indentation level ++ "Operand: " ++ text]

/-- A line of tokens under a name. -/
def tokenLine (label : String) (tokens : List Token) : String :=
  indentation level ++ label ++ ": " ++ String.intercalate " " (tokens.map (·.value))

/-- A name on a line, and some nodes one level deeper. -/
def blockLines (label : String) (ids : List NodeId) : List String :=
  (indentation level ++ label ++ ":") :: ids.flatMap (sub (level + 1))

/-- What the fields of a node show at `level`, when `sub` gives the lines that a node shows at a level. -/
def Node.contents : Node → List String
  | .program => []
  | .var .. => []
  | .assignment left right => [left, right].flatMap (·.shownLines sub level)
  | .binary _ left right => [left, right].flatMap (·.shownLines sub level)
  | .loopCondition left _ right => [tokenLine level "Left" left, tokenLine level "Right" right]
  | .forLoop initialization condition update body =>
    sub level initialization ++ sub level condition ++ sub level update ++ [tokenLine level "Body" body]
  | .array _ _ elements => elements.flatMap (·.shownLines sub level)
  | .struct _ fields => fields.flatMap (sub level)
  | .macroDef _ body => [tokenLine level "Body" body]
  | .ifStatement condition body none => sub level condition ++ blockLines sub level "Then" body
  | .ifStatement condition body (some elseBody) =>
    sub level condition ++ blockLines sub level "Then" body ++ blockLines sub level "Else" elseBody
  | .whileLoop condition body => sub level condition ++ blockLines sub level "Body" body
  | .functionDeclaration _ _ parameters body =>
    blockLines sub level "Parameters" parameters ++ blockLines sub level "Body" body
  | .functionCall _ arguments => arguments.flatMap (·.shownLines sub level)

end Contents

namespace Forest

/-- The lines a number shows at a level: none when it is not given out, and otherwise the header of its node, what the fields of the
node hold, and its children, both one level deeper. -/
inductive Shown (f : Forest) : NodeId → Nat → List String → Prop where
  | unknown {id : NodeId} {level : Nat} (hid : f.get? id = none) : Shown f id level []
  | node {id : NodeId} {level : Nat} {e : Entry} {sub : Nat → NodeId → List String} (hid : f.get? id = some e)
    (hsub : ∀ c ∈ e.node.fieldIds ++ e.children, ∀ l, Shown f c l (sub l c)) :
    Shown f id level ((indentation level ++ e.node.header) ::
      (e.node.contents sub (level + 1) ++ e.children.flatMap (sub (level + 1))))

/-! ## The work list renders the recursive form -/

/-- What a task shows in a rendering. -/
def taskLines (f : Forest) : Task → List String
  | .line l => [l.text]
  | .node level id => f.render id level

section TaskLines

variable (f : Forest) (level : Nat)

@[simp] theorem taskLines_node (id : NodeId) : f.taskLines (.node level id) = f.render id level := rfl

@[simp] theorem taskLines_operand (o : Operand) :
    f.taskLines (.operand level o) = o.shownLines (fun l c => f.render c l) level := by
  cases o with
  | node id => rfl
  | raw text => simp [Task.operand, taskLines, Line.text, Operand.shownLines, String.append_assoc]

@[simp] theorem taskLines_tokens (label : String) (tokens : List Token) :
    f.taskLines (.tokens level label tokens) = [tokenLine level label tokens] := by
  simp [Task.tokens, taskLines, Line.text, tokenLine, Token.joined, String.append_assoc]

@[simp] theorem flatMap_taskLines_nodes (ids : List NodeId) :
    (Task.nodes level ids).flatMap f.taskLines = ids.flatMap (f.render · level) := by
  rw [Task.nodes, List.flatMap_map]
  rfl

@[simp] theorem flatMap_taskLines_block (label : String) (ids : List NodeId) :
    (Task.block level label ids).flatMap f.taskLines = blockLines (fun l c => f.render c l) level label ids := by
  rw [Task.block, List.flatMap_cons, flatMap_taskLines_nodes, blockLines]
  simp [taskLines, Line.text, String.append_assoc]

/-- The tasks of a node show what the recursive form says its fields hold. -/
theorem flatMap_taskLines_tasks (node : Node) :
    (node.tasks level).flatMap f.taskLines = node.contents (fun l c => f.render c l) level := by
  cases node with
  | ifStatement condition body elseBody => cases elseBody <;> simp [Node.tasks, Node.contents]
  | _ => simp [Node.tasks, Node.contents, List.flatMap_map]

end TaskLines

variable {f : Forest}

/-- A walk over some tasks renders them one after the other. -/
theorem exists_works_taskLines (hf : f.Linked) (hg : f.Grounded) (tasks : List Task) :
    ∃ drawn, f.Works tasks drawn ∧ drawn.map (·.line.text) = tasks.flatMap f.taskLines := by
  induction tasks with
  | nil => exact ⟨[], .done, rfl⟩
  | cons task tasks ih =>
    obtain ⟨drawn, hworks, hlines⟩ := ih
    cases task with
    | line l => exact ⟨_, .line hworks, congrArg (l.text :: ·) hlines⟩
    | node level id =>
      obtain ⟨first, hfirst, houtline⟩ := exists_works hf hg id level
      refine ⟨first ++ drawn, hfirst.append hworks, ?_⟩
      rw [List.map_append, hlines, List.flatMap_cons, taskLines_node, render, houtline, List.map_map]
      rfl

/-- A walk from a node renders the node. -/
theorem Works.render_eq (hf : f.Linked) (hg : f.Grounded) {id : NodeId} {level : Nat} {drawn : List Drawn}
    (h : f.Works [.node level id] drawn) : f.render id level = drawn.map (·.line.text) := by
  rw [render, h.outline_eq hf hg, List.map_map]
  rfl

theorem render_unknown {id : NodeId} (hid : f.get? id = none) (level : Nat) : f.render id level = [] := by
  rw [render, outline, work_unknown hid, work_nil]
  rfl

/-- A node renders as its header, what its fields hold, and its children, where the nodes below it render in the same way. -/
theorem render_node (hf : f.Linked) (hg : f.Grounded) {id : NodeId} {e : Entry} (he : f.get? id = some e) (level : Nat) :
    f.render id level = (indentation level ++ e.node.header) ::
      (e.node.contents (fun l c => f.render c l) (level + 1) ++ e.children.flatMap (f.render · (level + 1))) := by
  obtain ⟨drawn, hworks, hlines⟩ := exists_works_taskLines hf hg (e.tasks (level + 1))
  have hpending : f.Works (e.tasks (level + 1) ++ []) drawn := by rwa [List.append_nil]
  rw [(Works.node he hpending).render_eq hf hg, List.map_cons, hlines, Entry.tasks, List.flatMap_append,
    flatMap_taskLines_tasks, flatMap_taskLines_nodes]
  rfl

/-! ## The recursive form has one answer -/

section Congr

variable {sub sub' : Nat → NodeId → List String}

theorem flatMap_shownLines_congr {operands : List Operand}
    (h : ∀ c ∈ operands.filterMap Operand.nodeId?, ∀ l, sub l c = sub' l c) (level : Nat) :
    operands.flatMap (·.shownLines sub level) = operands.flatMap (·.shownLines sub' level) := by
  refine List.flatMap_congr fun o ho => ?_
  cases o with
  | node id => exact h id (List.mem_filterMap.mpr ⟨_, ho, rfl⟩) level
  | raw text => rfl

theorem blockLines_congr {ids : List NodeId} (h : ∀ c ∈ ids, ∀ l, sub l c = sub' l c) (level : Nat) (label : String) :
    blockLines sub level label ids = blockLines sub' level label ids :=
  congrArg (_ :: ·) (List.flatMap_congr fun c hc => h c hc (level + 1))

/-- What the fields of a node show depends on no other nodes than those it refers to. -/
theorem contents_congr {node : Node} (h : ∀ c ∈ node.fieldIds, ∀ l, sub l c = sub' l c) (level : Nat) :
    node.contents sub level = node.contents sub' level := by
  cases node with
  | program | var | loopCondition | macroDef => rfl
  | assignment left right => exact flatMap_shownLines_congr h level
  | binary operator left right => exact flatMap_shownLines_congr h level
  | array name size elements => exact flatMap_shownLines_congr h level
  | functionCall name arguments => exact flatMap_shownLines_congr h level
  | struct name fields => exact List.flatMap_congr fun c hc => h c hc level
  | forLoop initialization condition update body =>
    simp only [Node.fieldIds, List.forall_mem_cons] at h
    simp only [Node.contents, h.1, h.2.1, h.2.2.1]
  | whileLoop condition body =>
    obtain ⟨hcondition, hbody⟩ := List.forall_mem_cons.mp h
    simp only [Node.contents, hcondition, blockLines_congr hbody]
  | functionDeclaration returnType name parameters body =>
    obtain ⟨hparameters, hbody⟩ := List.forall_mem_append.mp h
    simp only [Node.contents, blockLines_congr hparameters, blockLines_congr hbody]
  | ifStatement condition body elseBody =>
    obtain ⟨hcondition, hbodies⟩ := List.forall_mem_cons.mp h
    obtain ⟨hbody, helse⟩ := List.forall_mem_append.mp hbodies
    cases elseBody with
    | none => simp only [Node.contents, hcondition, blockLines_congr hbody]
    | some ids =>
      rw [Option.getD_some] at helse
      simp only [Node.contents, hcondition, blockLines_congr hbody, blockLines_congr helse]

end Congr

/-- A number shows the same lines at a level, however the recursive form is followed. -/
theorem Shown.unique {id : NodeId} {level : Nat} {lines lines' : List String} (h : f.Shown id level lines)
    (h' : f.Shown id level lines') : lines = lines' := by
  induction h generalizing lines' with
  | unknown hid =>
    cases h' with
    | unknown _ => rfl
    | node hid' _ => rw [hid] at hid'; cases hid'
  | @node id level e sub hid _ ih =>
    cases h' with
    | unknown hid' => rw [hid] at hid'; cases hid'
    | @node _ _ e' sub' hid' hsub' =>
      obtain rfl := Option.some.inj (hid.symm.trans hid')
      have hsame : ∀ c ∈ e.node.fieldIds ++ e.children, ∀ l, sub l c = sub' l c := fun c hc l => ih c hc l (hsub' c hc l)
      obtain ⟨hfields, hchildren⟩ := List.forall_mem_append.mp hsame
      rw [contents_congr hfields, List.flatMap_congr fun c hc => hchildren c hc (level + 1)]

/-- A rendering shows what the recursive form says. -/
theorem shown_render (hf : f.Linked) (hg : f.Grounded) (id : NodeId) : ∀ level, f.Shown id level (f.render id level) := by
  induction id using downward_induction hf hg with
  | step id ih =>
    intro level
    cases he : f.get? id with
    | none =>
      rw [render_unknown he]
      exact .unknown he
    | some e =>
      rw [render_node hf hg he]
      exact .node he fun c hc l => ih c ((mem_owned_of_get? he).mpr hc) l

/-! ## The lines of a node alone -/

section Alone

/-- One of these nodes shows the line, at some level. -/
def ShowsOne (sub : Nat → NodeId → List String) (line : String) (ids : List NodeId) : Prop := ∃ c ∈ ids, ∃ l, line ∈ sub l c

variable {sub : Nat → NodeId → List String} {level : Nat} {line : String}

theorem ShowsOne.mono {ids more : List NodeId} (h : ShowsOne sub line ids) (hsub : ids ⊆ more) : ShowsOne sub line more := by
  obtain ⟨c, hc, hline⟩ := h
  exact ⟨c, hsub hc, hline⟩

theorem mem_flatMap_shownLines {operands : List Operand} (h : line ∈ operands.flatMap (·.shownLines sub level)) :
    line ∈ operands.flatMap (·.shownLines (fun _ _ => []) level) ∨ ShowsOne sub line (operands.filterMap Operand.nodeId?) := by
  obtain ⟨o, ho, hline⟩ := List.mem_flatMap.mp h
  cases o with
  | node id => exact Or.inr ⟨id, List.mem_filterMap.mpr ⟨_, ho, rfl⟩, level, hline⟩
  | raw text => exact Or.inl (List.mem_flatMap.mpr ⟨_, ho, hline⟩)

theorem mem_blockLines {label : String} {ids : List NodeId} (h : line ∈ blockLines sub level label ids) :
    line ∈ blockLines (fun _ _ => []) level label ids ∨ ShowsOne sub line ids := by
  rcases List.mem_cons.mp h with rfl | h
  · exact Or.inl List.mem_cons_self
  · obtain ⟨c, hc, hline⟩ := List.mem_flatMap.mp h
    exact Or.inr ⟨c, hc, level + 1, hline⟩

theorem mem_condition_block {condition : NodeId} {label : String} {ids : List NodeId}
    (h : line ∈ sub level condition ++ blockLines sub level label ids) :
    line ∈ blockLines (fun _ _ => []) level label ids ∨ ShowsOne sub line (condition :: ids) := by
  rcases List.mem_append.mp h with h | h
  · exact Or.inr ⟨condition, List.mem_cons_self, level, h⟩
  · exact (mem_blockLines h).imp_right (·.mono (List.subset_cons_self condition ids))

/-- What the fields of a node show is of the node's own, or a node it refers to shows it. -/
theorem mem_contents {node : Node} (h : line ∈ node.contents sub level) :
    line ∈ node.contents (fun _ _ => []) level ∨ ShowsOne sub line node.fieldIds := by
  cases node with
  | program | var | loopCondition | macroDef => exact Or.inl h
  | assignment left right => exact mem_flatMap_shownLines h
  | binary operator left right => exact mem_flatMap_shownLines h
  | array name size elements => exact mem_flatMap_shownLines h
  | functionCall name arguments => exact mem_flatMap_shownLines h
  | struct name fields =>
    obtain ⟨c, hc, hline⟩ := List.mem_flatMap.mp h
    exact Or.inr ⟨c, hc, level, hline⟩
  | forLoop initialization condition update body =>
    simp only [Node.contents, List.mem_append] at h
    rcases h with ((h | h) | h) | h
    · exact Or.inr ⟨initialization, by simp [Node.fieldIds], level, h⟩
    · exact Or.inr ⟨condition, by simp [Node.fieldIds], level, h⟩
    · exact Or.inr ⟨update, by simp [Node.fieldIds], level, h⟩
    · exact Or.inl (by simpa [Node.contents] using h)
  | whileLoop condition body => exact mem_condition_block h
  | functionDeclaration returnType name parameters body =>
    rcases List.mem_append.mp h with h | h
    · exact (mem_blockLines h).imp (List.mem_append_left _) (·.mono (List.subset_append_left parameters body))
    · exact (mem_blockLines h).imp (List.mem_append_right _) (·.mono (List.subset_append_right parameters body))
  | ifStatement condition body elseBody =>
    cases elseBody with
    | none => exact (mem_condition_block h).imp_right (·.mono (List.cons_subset_cons condition (List.subset_append_left body [])))
    | some ids =>
      rcases List.mem_append.mp h with h | h
      · exact (mem_condition_block h).imp (List.mem_append_left _) (·.mono (List.subset_append_left (condition :: body) ids))
      · exact (mem_blockLines h).imp (List.mem_append_right _) (·.mono (List.subset_append_right (condition :: body) ids))

end Alone

/-- The lines a node shows at a level when no node below it shows any. -/
def linesAlone (level : Nat) (node : Node) : List String :=
  (indentation level ++ node.header) :: node.contents (fun _ _ => []) (level + 1)

/-- What holds of the lines that each node shows of its own holds of all lines of a rendering. -/
theorem forall_mem_render (hf : f.Linked) (hg : f.Grounded) {P : String → Prop}
    (h : ∀ id node, f.node? id = some node → ∀ level, ∀ line ∈ linesAlone level node, P line) (id : NodeId) :
    ∀ level, ∀ line ∈ f.render id level, P line := by
  induction id using downward_induction hf hg with
  | step id ih =>
    intro level line hline
    cases he : f.get? id with
    | none =>
      rw [render_unknown he] at hline
      cases hline
    | some e =>
      have hnode : f.node? id = some e.node := node?_of_get? he
      have hbelow : ∀ c ∈ e.node.fieldIds ++ e.children, ∀ l, line ∈ f.render c l → P line := fun c hc l hmem =>
        ih c ((mem_owned_of_get? he).mpr hc) l line hmem
      rw [render_node hf hg he, List.mem_cons, List.mem_append] at hline
      rcases hline with rfl | hline | hline
      · exact h id e.node hnode level _ List.mem_cons_self
      · rcases mem_contents hline with halone | ⟨c, hc, l, hmem⟩
        · exact h id e.node hnode level line (List.mem_cons_of_mem _ halone)
        · exact hbelow c (List.mem_append_left _ hc) l hmem
      · obtain ⟨c, hc, hmem⟩ := List.mem_flatMap.mp hline
        exact hbelow c (List.mem_append_right _ hc) (level + 1) hmem

/-! ## What a rendering shows -/

/-- In a forest that calls build, the work list comes to its end for every number at every level, without a bound on the nodes it
opens. What it leaves is the rendering, and the rendering is what the recursive form says and nothing else. -/
theorem render_iff_shown (hf : f.Reached) (id : NodeId) (level : Nat) :
    (∃ drawn, f.Works [.node level id] drawn ∧ f.render id level = drawn.map (·.line.text)) ∧
      ∀ lines, f.Shown id level lines ↔ f.render id level = lines := by
  obtain ⟨drawn, hworks, -⟩ := exists_works hf.linked hf.grounded id level
  refine ⟨⟨drawn, hworks, hworks.render_eq hf.linked hf.grounded⟩, fun lines => ⟨fun h => ?_, fun h => ?_⟩⟩
  · exact (shown_render hf.linked hf.grounded id level).unique h
  · exact h ▸ shown_render hf.linked hf.grounded id level

/-- The statement at a node whose child is younger and refers to an older node, with an else part without nodes. -/
theorem render_iff_shown_emptyElse :
    let f := empty.run [.add (.var "a" none) ⟨1, 1⟩, .add (.var "b" none) ⟨2, 1⟩, .add (.ifStatement 1 [] (some [])) ⟨3, 1⟩,
      .addChild 2 3]
    f.render 2 0 = ["Variable: b", "  If Statement", "    Variable: a", "    Then:", "    Else:"] ∧
      (∃ drawn, f.Works [.node 0 2] drawn ∧ f.render 2 0 = drawn.map (·.line.text)) ∧
      ∀ lines, f.Shown 2 0 lines ↔ f.render 2 0 = lines := by
  intro f
  have hlines : f.render 2 0 = ["Variable: b", "  If Statement", "    Variable: a", "    Then:", "    Else:"] := by cbv
  exact ⟨hlines, render_iff_shown ⟨_, rfl⟩ 2 0⟩

/-- In a forest that calls build, the lines of a rendering are about the nodes that have the node in their lineage. The header of each
of them is there once, in preorder, and with it as many lines as the node has of its own. -/
theorem render_preorder (hf : f.Reached) {id : NodeId} (hid : id < f.size) (level : Nat) :
    ∃ drawn nodes, f.Works [.node level id] drawn ∧ f.render id level = drawn.map (·.line.text) ∧
      Drawn.nodes drawn = nodes ∧ f.Preorder id nodes ∧ nodes.Nodup ∧ (∀ d, d ∈ nodes ↔ id ∈ f.ancestors d) ∧
      (f.render id level).length = (nodes.map fun d => 1 + f.ownLines d).sum := by
  have hlinked := hf.linked
  have hgrounded := hf.grounded
  obtain ⟨nodes, hnodes⟩ := Preorder.exists_of_lt hlinked hgrounded hid
  obtain ⟨drawn, hworks, hopened, hlength⟩ := hnodes.opens level
  have hrender := hworks.render_eq hlinked hgrounded
  refine ⟨drawn, nodes, hworks, hrender, hopened, hnodes, hnodes.nodup hlinked hgrounded, fun d => ?_, ?_⟩
  · rcases Nat.lt_or_ge d f.size with hd | hd
    · obtain ⟨line, hl⟩ := hgrounded d
      rw [hl.ancestors_eq hlinked hd]
      exact hnodes.mem_iff hlinked hl
    · have hnone : f.ancestors d = [] := ancestors_eq_nil hd
      rw [hnone]
      exact ⟨fun hm => absurd (hnodes.lt_size d hm) (Nat.not_lt.mpr hd), fun hm => absurd hm List.not_mem_nil⟩
  · rw [hrender, List.length_map]
    exact hlength

/-- The statement at a node that was attached below a younger one and has a condition and a text for operands. -/
theorem render_preorder_reattached :
    let f := empty.run [.add (.loopCondition [] "<" []) ⟨1, 1⟩, .add (.assignment (.node 1) (.raw "x")) ⟨2, 1⟩,
      .add (.var "b" none) ⟨3, 1⟩, .addChild 3 2, .addChild 2 0]
    3 < f.size ∧ ∃ drawn nodes, f.Works [.node 1 3] drawn ∧ f.render 3 1 = drawn.map (·.line.text) ∧
      Drawn.nodes drawn = nodes ∧ f.Preorder 3 nodes ∧ nodes.Nodup ∧ (∀ d, d ∈ nodes ↔ 3 ∈ f.ancestors d) ∧
      (f.render 3 1).length = (nodes.map fun d => 1 + f.ownLines d).sum := by
  intro f
  have hid : 3 < f.size := by decide +kernel
  exact ⟨hid, render_preorder ⟨_, rfl⟩ hid 1⟩

end Forest

end LoopForest
