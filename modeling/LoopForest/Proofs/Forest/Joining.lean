import LoopForest.Proofs.Forest.Calls
import Mathlib.Data.List.Basic

/-!
# Forests joined

Two forests are joined by putting the nodes of the second one behind those of the first. The two roots become one: it has the children
of the first root and then those of the second. The other nodes of the second forest get new numbers (`Forest.shift`), and every number
in them, in a field, as an owner or as a child, is renumbered with them.

To a joined forest a node can be added before or after joining: adding commutes with it (`join_withNode`), and so does attaching a child
to the root (`join_link`). So whatever builds a forest out of these two builds the same one behind another forest.
-/

namespace LoopForest

/-! ## Renumbering -/

/-- An operand with other numbers for nodes. -/
def Operand.renumber (σ : NodeId → NodeId) : Operand → Operand
  | .node id => .node (σ id)
  | .raw text => .raw text

/-- A node that refers to nodes by other numbers. -/
def Node.renumber (σ : NodeId → NodeId) : Node → Node
  | .program => .program
  | .var name type => .var name type
  | .assignment left right => .assignment (left.renumber σ) (right.renumber σ)
  | .binary operator left right => .binary operator (left.renumber σ) (right.renumber σ)
  | .loopCondition left comparator right => .loopCondition left comparator right
  | .forLoop initialization condition update body => .forLoop (σ initialization) (σ condition) (σ update) body
  | .array name size elements => .array name size (elements.map (·.renumber σ))
  | .struct name fields => .struct name (fields.map σ)
  | .macroDef name body => .macroDef name body
  | .ifStatement condition body elseBody => .ifStatement (σ condition) (body.map σ) (elseBody.map (·.map σ))
  | .whileLoop condition body => .whileLoop (σ condition) (body.map σ)
  | .functionDeclaration returnType name parameters body =>
    .functionDeclaration returnType name (parameters.map σ) (body.map σ)
  | .functionCall name arguments => .functionCall name (arguments.map (·.renumber σ))

/-- An entry in which all nodes have other numbers. -/
def Entry.renumber (σ : NodeId → NodeId) (e : Entry) : Entry :=
  { e with node := e.node.renumber σ, parent := e.parent.map σ, children := e.children.map σ }

/-- The entry, with more children behind the others. -/
def Entry.withChildren (e : Entry) (more : List NodeId) : Entry := { e with children := e.children ++ more }

section

variable (σ : NodeId → NodeId)

theorem filterMap_nodeId?_renumber (operands : List Operand) :
    (operands.map (·.renumber σ)).filterMap Operand.nodeId? = (operands.filterMap Operand.nodeId?).map σ := by
  rw [List.filterMap_map, List.map_filterMap]
  refine List.filterMap_congr fun operand _ => ?_
  cases operand <;> rfl

/-- A renumbered node refers to the renumbered nodes. -/
@[simp] theorem Node.fieldIds_renumber (node : Node) : (node.renumber σ).fieldIds = node.fieldIds.map σ := by
  cases node with
  | assignment left right => exact filterMap_nodeId?_renumber σ [left, right]
  | binary operator left right => exact filterMap_nodeId?_renumber σ [left, right]
  | array name size elements => exact filterMap_nodeId?_renumber σ elements
  | functionCall name arguments => exact filterMap_nodeId?_renumber σ arguments
  | ifStatement condition body elseBody => cases elseBody <;> simp [Node.renumber, fieldIds]
  | functionDeclaration returnType name parameters body => exact List.map_append.symm
  | program | var | loopCondition | forLoop | struct | macroDef | whileLoop => rfl

@[simp] theorem Entry.renumber_ownedBy (e : Entry) (parent : NodeId) :
    (e.ownedBy parent).renumber σ = (e.renumber σ).ownedBy (σ parent) := rfl

end

namespace Forest

/-! ## Joining -/

/-- The number that a node gets when its forest is put behind `f`. The root stays the root. -/
def shift (f : Forest) (id : NodeId) : NodeId := if id = root then root else id + (f.size - 1)

/-- The first forest, with the nodes of the second one behind its own. -/
def join (f g : Forest) : Forest :=
  ⟨f.entries.modify root (·.withChildren ((g.children root).map f.shift)) ++
    (g.entries.extract 1 g.size).map (·.renumber f.shift)⟩

variable {f g : Forest}

@[simp] theorem shift_root (f : Forest) : f.shift root = root := if_pos rfl

theorem shift_of_ne {id : NodeId} (hid : id ≠ root) : f.shift id = id + (f.size - 1) := if_neg hid

theorem shift_ne_root {id : NodeId} (hid : id ≠ root) : f.shift id ≠ root := by
  rw [shift_of_ne hid]
  exact Nat.ne_of_gt (Nat.add_pos_left (Nat.pos_of_ne_zero hid) _)

theorem size_le_shift {id : NodeId} (hid : id ≠ root) : f.size ≤ f.shift id := by
  have hpos : (0 : Nat) < id := Nat.pos_of_ne_zero hid
  rw [shift_of_ne hid]
  omega

theorem shift_injective (f : Forest) : Function.Injective f.shift := by
  intro id id' h
  by_cases hid : id = root
  · by_cases hid' : id' = root
    · rw [hid, hid']
    · subst hid
      exact absurd h.symm (shift_ne_root hid')
  · by_cases hid' : id' = root
    · subst hid'
      exact absurd h (shift_ne_root hid)
    · rw [shift_of_ne hid, shift_of_ne hid'] at h
      exact Nat.add_right_cancel h

/-- A number is that of the root, of another node of the first forest, or one that a node behind that forest gets. -/
theorem shift_cases (f : Forest) (id : NodeId) :
    id = root ∨ (id ≠ root ∧ id < f.size) ∨ ∃ old, old ≠ root ∧ id = f.shift old := by
  by_cases hid : id = root
  · exact Or.inl hid
  · by_cases hlt : id < f.size
    · exact Or.inr (Or.inl ⟨hid, hlt⟩)
    · have hpos : (0 : Nat) < id := Nat.pos_of_ne_zero hid
      have hle : f.size ≤ id := Nat.le_of_not_lt hlt
      have hold : id - (f.size - 1) ≠ root := Nat.ne_of_gt (Nat.sub_pos_of_lt (by omega))
      refine Or.inr (Or.inr ⟨_, hold, ?_⟩)
      rw [shift_of_ne hold]
      exact (Nat.sub_add_cancel (by omega)).symm

/-- The other nodes of the first forest are what they were. -/
theorem get?_join_of_lt {id : NodeId} (hid : id ≠ root) (hlt : id < f.size) : (f.join g).get? id = f.get? id := by
  have hlt' : id < (f.entries.modify root (·.withChildren ((g.children root).map f.shift))).size := by
    rw [Array.size_modify]
    exact hlt
  rw [get?, join, Array.getElem?_append_left hlt', Array.getElem?_modify, if_neg (Ne.symm hid), get?]

section

variable (hf : root < f.size)

include hf

/-- The root has its children, and then those of the other root. -/
theorem get?_join_root :
    (f.join g).get? root = (f.get? root).map (·.withChildren ((g.children root).map f.shift)) := by
  have hlt : root < (f.entries.modify root (·.withChildren ((g.children root).map f.shift))).size := by
    rw [Array.size_modify]
    exact hf
  rw [get?, join, Array.getElem?_append_left hlt, Array.getElem?_modify, if_pos rfl, get?]

/-- The numbers behind the first forest begin with its size. -/
theorem shift_succ (i : Nat) : f.shift (i + 1) = f.size + i := by
  have hpos : (0 : Nat) < f.size := hf
  have hsum : i + 1 + (f.size - 1) = f.size + i := by omega
  rw [shift_of_ne (Nat.succ_ne_zero i)]
  exact hsum

/-- Behind them stand the nodes of the second forest, renumbered. -/
theorem get?_join_shift {id : NodeId} (hid : id ≠ root) :
    (f.join g).get? (f.shift id) = (g.get? id).map (·.renumber f.shift) := by
  obtain ⟨i, rfl⟩ := Nat.exists_eq_succ_of_ne_zero hid
  have hsize : (f.entries.modify root (·.withChildren ((g.children root).map f.shift))).size = f.size := Array.size_modify
  have hle : (f.entries.modify root (·.withChildren ((g.children root).map f.shift))).size ≤ f.size + i :=
    hsize ▸ Nat.le_add_right _ _
  rw [shift_succ hf, get?, join, Array.getElem?_append_right hle, hsize, Nat.add_sub_cancel_left, Array.getElem?_map,
    Array.getElem?_extract, Nat.add_comm 1, get?]
  split
  · rfl
  · next hout =>
    have hsize' : g.size = g.entries.size := rfl
    have hnone : g.entries[i + 1]? = none := Array.getElem?_eq_none (by omega)
    rw [hnone]

/-- A node that is added to the second forest would get its number in the joined forest as well. -/
theorem size_join (hg : root < g.size) : (f.join g).size = f.shift g.size := by
  have hg' : (0 : Nat) < g.size := hg
  have hpred : g.size - 1 + 1 = g.size := by omega
  have hsize : (f.join g).size = f.size + (g.size - 1) := by
    simp [join, size]
  rw [hsize, ← shift_succ hf, hpred]

/-- The empty forest has no node but the root, and that one has no children. -/
@[simp] theorem join_empty : f.join empty = f := by
  refine ext_get? fun id => ?_
  obtain rfl | ⟨hid, hlt⟩ | ⟨old, hold, rfl⟩ := f.shift_cases id
  · have hchildren : empty.children root = [] := rfl
    rw [get?_join_root hf, hchildren]
    simp [Entry.withChildren]
  · exact get?_join_of_lt hid hlt
  · have hnone : empty.get? old = none := (get?_eq_none_iff _ _).mpr (Nat.pos_of_ne_zero hold)
    rw [get?_join_shift hf hold, hnone, (get?_eq_none_iff f _).mpr (size_le_shift hold)]
    rfl

/-- Adding a node to the second forest is adding it, renumbered, to the joined one. -/
theorem join_withNode (hg : root < g.size) {node : Node} (hfields : root ∉ node.fieldIds) (location : Location) :
    f.join (g.withNode node location) = (f.join g).withNode (node.renumber f.shift) location := by
  -- the new node takes over nodes of the second forest only, since their numbers are beyond those of the first one
  have hmem : ∀ id, f.shift id ∈ node.fieldIds.map f.shift ↔ id ∈ node.fieldIds := fun id =>
    List.mem_map_of_injective f.shift_injective
  have hnot : ∀ id < f.size, id ∉ node.fieldIds.map f.shift := fun id hlt hm => by
    obtain ⟨c, hc, rfl⟩ := List.mem_map.mp hm
    have hne : c ≠ root := fun h => hfields (h ▸ hc)
    exact Nat.not_lt.mpr (size_le_shift hne) hlt
  have hsize : (f.join g).size = f.shift g.size := size_join hf hg
  have hnew : f.size ≤ f.shift g.size := size_le_shift (Nat.ne_of_gt hg)
  refine ext_get? fun id => ?_
  rw [get?_withNode, hsize, Node.fieldIds_renumber]
  obtain rfl | ⟨hid, hlt⟩ | ⟨old, hold, rfl⟩ := f.shift_cases id
  · rw [get?_join_root hf, get?_join_root hf, children_withNode, if_neg (Nat.ne_of_lt (Nat.lt_of_lt_of_le hf hnew))]
    simp only [hnot root hf, if_false, Option.map_id']
  · rw [get?_join_of_lt hid hlt, get?_join_of_lt hid hlt, if_neg (Nat.ne_of_lt (Nat.lt_of_lt_of_le hlt hnew))]
    simp only [hnot id hlt, if_false, Option.map_id']
  · rw [get?_join_shift hf hold, get?_join_shift hf hold, get?_withNode]
    by_cases hlast : old = g.size
    · rw [if_pos hlast, if_pos (congrArg f.shift hlast)]
      rfl
    · rw [if_neg hlast, if_neg fun h => hlast (f.shift_injective h), Option.map_map, Option.map_map]
      refine Option.map_congr fun e _ => ?_
      by_cases hm : old ∈ node.fieldIds
      · simp [hm, (hmem old).mpr hm]
      · simp [hm, mt (hmem old).mp hm]

/-- Attaching a child to the second root is attaching it, renumbered, to the one root there is. -/
theorem join_link (hg : root < g.size) {child : NodeId} (hchild : child ≠ root) :
    f.join (g.link root child) = (f.join g).link root (f.shift child) := by
  refine ext_get? fun id => ?_
  rw [get?_link]
  obtain rfl | ⟨hid, hlt⟩ | ⟨old, hold, rfl⟩ := f.shift_cases id
  · have hne : f.shift child ≠ root := shift_ne_root hchild
    rw [get?_join_root hf, get?_join_root hf, children_link hg, if_pos rfl]
    cases f.get? root <;> simp [hne, Entry.withChildren, Entry.withChild]
  · have hne : f.shift child ≠ id := Nat.ne_of_gt (Nat.lt_of_lt_of_le hlt (size_le_shift hchild))
    rw [get?_join_of_lt hid hlt, get?_join_of_lt hid hlt]
    simp [hne, Ne.symm hid]
  · have hiff : f.shift child = f.shift old ↔ child = old := f.shift_injective.eq_iff
    rw [get?_join_shift hf hold, get?_join_shift hf hold, get?_link]
    cases g.get? old with
    | none => rfl
    | some e => by_cases hc : child = old <;> simp [hiff, hc, Ne.symm hold, Ne.symm (shift_ne_root hold)]

end

end Forest

end LoopForest
