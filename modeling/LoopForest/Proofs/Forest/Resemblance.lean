import LoopForest.Proofs.Forest.Joining
import LoopForest.Proofs.Forest.Rendering

/-!
# Subtrees that are the same

Two subtrees are the same when the one is the other with an offset to all numbers, at whatever places its nodes stand in the text
(`SameBelow`): the nodes are met in the same order, they are the same but for the numbers they refer to, and they are linked in the same
way. The two may stand in different forests, and what owns them and what else there is makes no difference.

Numbers and places are not shown, so subtrees that are the same render as the same lines (`SameBelow.render_eq`).
-/

namespace LoopForest

/-! ## Numbers are not shown -/

section Renumber

variable (σ : NodeId → NodeId)

@[simp] theorem Node.title_renumber (node : Node) : (node.renumber σ).title = node.title := by
  cases node <;> rfl

@[simp] theorem Node.detail_renumber (node : Node) : (node.renumber σ).detail = node.detail := by
  cases node with
  | array name size elements => cases size <;> rfl
  | _ => rfl

@[simp] theorem Node.header_renumber (node : Node) : (node.renumber σ).header = node.header := by
  rw [header, detail_renumber, title_renumber, header]

variable (sub : Nat → NodeId → List String) (level : Nat)

@[simp] theorem Operand.shownLines_renumber (operand : Operand) :
    (operand.renumber σ).shownLines sub level = operand.shownLines (fun l c => sub l (σ c)) level := by
  cases operand <;> rfl

@[simp] theorem blockLines_map (label : String) (ids : List NodeId) :
    blockLines sub level label (ids.map σ) = blockLines (fun l c => sub l (σ c)) level label ids := by
  simp only [blockLines, List.flatMap_map]

/-- A renumbered node holds what the node holds when each number shows what its new number shows. -/
theorem Node.contents_renumber (node : Node) :
    (node.renumber σ).contents sub level = node.contents (fun l c => sub l (σ c)) level := by
  cases node with
  | ifStatement condition body elseBody => cases elseBody <;> simp [renumber, contents]
  | _ => simp [renumber, contents, List.flatMap_map]

end Renumber

namespace Forest

/-- What stands below `b` in `g` is what stands below `a` in `f`, where a node of number `c` has the number `σ c`, and all numbers differ
by the offset from `a` to `b`. The nodes below, in preorder, are `nodes`. -/
structure SameBelow (f : Forest) (a : NodeId) (g : Forest) (b : NodeId) (σ : NodeId → NodeId) (nodes : List NodeId) : Prop where
  preorder : f.Preorder a nodes
  preorder_map : g.Preorder b (nodes.map σ)
  offset : ∀ c ∈ nodes, σ c + a = c + b
  node? : ∀ c ∈ nodes, g.node? (σ c) = (f.node? c).map (·.renumber σ)
  children : ∀ c ∈ nodes, g.children (σ c) = (f.children c).map σ
  parent? : ∀ c ∈ nodes, c ≠ a → g.parent? (σ c) = (f.parent? c).map σ

namespace SameBelow

variable {f g : Forest} {a b : NodeId} {σ : NodeId → NodeId} {nodes : List NodeId}

theorem apply_eq (h : f.SameBelow a g b σ nodes) : σ a = b := by
  have hoffset := h.offset a h.preorder.mem_self
  exact Nat.add_left_cancel ((Nat.add_comm a (σ a)).trans hoffset)

/-- Every node of one of two subtrees that are the same renders as its like in the other one. -/
theorem render_eq_of_mem (hf : f.Reached) (hg : g.Reached) (h : f.SameBelow a g b σ nodes) :
    ∀ c ∈ nodes, ∀ level, f.render c level = g.render (σ c) level := by
  intro c
  induction c using downward_induction hf.linked hf.grounded with
  | step c ih =>
    intro hc level
    obtain ⟨e, he⟩ := exists_get? (h.preorder.lt_size c hc)
    obtain ⟨e', he'⟩ := exists_get? (h.preorder_map.lt_size (σ c) (List.mem_map_of_mem hc))
    have hnode : e'.node = e.node.renumber σ := by simpa [Forest.node?, he, he'] using h.node? c hc
    have hchildren : e'.children = e.children.map σ := by simpa [Forest.children, he, he'] using h.children c hc
    have hsub : ∀ d ∈ e.node.fieldIds ++ e.children, ∀ l, f.render d l = g.render (σ d) l := fun d hd =>
      ih d ((mem_owned_of_get? he).mpr hd) (h.preorder.mem_of_owned hc ((mem_owned_of_get? he).mpr hd))
    obtain ⟨hfields, hbelow⟩ := List.forall_mem_append.mp hsub
    rw [render_node hf.linked hf.grounded he, render_node hg.linked hg.grounded he', hnode, hchildren, Node.header_renumber,
      Node.contents_renumber, List.flatMap_map, contents_congr hfields,
      List.flatMap_congr fun d hd => hbelow d hd (level + 1)]

/-- Subtrees that are the same render as the same lines. -/
theorem render_eq (hf : f.Reached) (hg : g.Reached) (h : f.SameBelow a g b σ nodes) (level : Nat) :
    f.render a level = g.render b level := by
  rw [h.render_eq_of_mem hf hg a h.preorder.mem_self, h.apply_eq]

end SameBelow

end Forest

end LoopForest
