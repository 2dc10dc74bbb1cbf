import LoopForest.Proofs.Forest.Ownership

/-!
# Growing forests

`Grown f g` says `g` is `f` with nodes added one at a time and nothing else done. Every added node is younger than the nodes of `f`,
and all that adding it changes in `f` is the owner of the nodes it takes over. So forgetting the added nodes gives `f` back, entry by
entry (`Grown.undo`): the owners they gave are cut off with them, and the links of `f` itself are all among its own nodes.
-/

namespace LoopForest

namespace Forest

/-- The second forest is the first with nodes added, one at a time. -/
inductive Grown (f : Forest) : Forest → Prop where
  | refl : Grown f f
  | add {g h : Forest} {node : Node} {location : Location} {id : NodeId} :
      Grown f g → g.add node location = .ok (id, h) → Grown f h

namespace Grown

variable {f g h : Forest}

theorem trans (hfg : Grown f g) (hgh : Grown g h) : Grown f h := by
  induction hgh with
  | refl => exact hfg
  | add _ hadd ih => exact .add ih hadd

theorem single {node : Node} {location : Location} {id : NodeId} (hadd : f.add node location = .ok (id, g)) : Grown f g :=
  .add .refl hadd

theorem size_le (h : Grown f g) : f.size ≤ g.size := by
  induction h with
  | refl => exact Nat.le_refl _
  | add _ hadd ih =>
    obtain ⟨-, -, rfl⟩ := add_eq_ok_iff.mp hadd
    rw [size_withNode]
    exact Nat.le_succ_of_le ih

theorem reached (h : Grown f g) (hf : f.Reached) : g.Reached := by
  induction h with
  | refl => exact hf
  | @add g h node location id _ hadd ih =>
    have hcall : g.run [.add node location] = h := by simp only [run_cons, run_nil, after, hadd]
    exact hcall ▸ ih.run [.add node location]

/-- Growing keeps the owner of the root. -/
theorem parent?_root (h : Grown f g) : g.parent? root = f.parent? root := by
  induction h with
  | refl => rfl
  | add _ hadd ih =>
    obtain ⟨hc, -, rfl⟩ := add_eq_ok_iff.mp hadd
    rw [parent?_root_withNode _ hc, ih]

end Grown

/-! ## What stays -/

/-- The nodes of the first forest are nodes of the second one, under their numbers and at their places. -/
structure Keeps (f g : Forest) : Prop where
  size_le : f.size ≤ g.size
  node?_eq : ∀ id < f.size, g.node? id = f.node? id
  location?_eq : ∀ id < f.size, g.location? id = f.location? id

namespace Keeps

variable {f g h : Forest}

theorem trans (hfg : f.Keeps g) (hgh : g.Keeps h) : f.Keeps h := by
  refine ⟨Nat.le_trans hfg.size_le hgh.size_le, fun id hid => ?_, fun id hid => ?_⟩
  · rw [hgh.node?_eq id (Nat.lt_of_lt_of_le hid hfg.size_le), hfg.node?_eq id hid]
  · rw [hgh.location?_eq id (Nat.lt_of_lt_of_le hid hfg.size_le), hfg.location?_eq id hid]

theorem withNode (f : Forest) (node : Node) (location : Location) : f.Keeps (f.withNode node location) := by
  refine ⟨by rw [size_withNode]; exact Nat.le_succ _, fun id hid => ?_, fun id hid => ?_⟩
  · rw [node?_withNode, if_neg (Nat.ne_of_lt hid)]
  · rw [location?_withNode, if_neg (Nat.ne_of_lt hid)]

theorem link (f : Forest) (parent child : NodeId) : f.Keeps (f.link parent child) :=
  ⟨Nat.le_of_eq (size_link f parent child).symm, fun id _ => node?_link f parent child id,
    fun id _ => location?_link f parent child id⟩

end Keeps

/-! ## Forgetting what was added -/

/-- Whether a node is added or not makes no difference to what is kept once it is forgotten. -/
theorem truncate_add {f : Forest} {node : Node} (location : Location) (hc : f.Claimable node.fieldIds) {count : Nat}
    (hcount : max count 1 ≤ f.size) :
    (f.withNode node location).truncate count = f.truncate count := by
  refine ext_get? fun id => ?_
  rw [get?_truncate, get?_truncate, get?_withNode]
  by_cases hid : id < max count 1
  · have hne : id ≠ f.size := Nat.ne_of_lt (Nat.lt_of_lt_of_le hid hcount)
    rw [if_pos hid, if_pos hid, if_neg hne]
    cases he : f.get? id with
    | none => rfl
    | some e =>
      by_cases hm : id ∈ node.fieldIds
      · have hun : e.parent = none := (parent?_of_get? he).symm.trans (hc.unowned id hm)
        have hcut : ¬f.size < max count 1 := Nat.not_lt.mpr hcount
        simp only [hm, if_true, Option.map_some, Entry.ownedBy, Entry.restrict, hun, Option.filter_some, hcut, decide_false,
          Option.filter_none, Bool.false_eq_true, if_false]
      · simp [hm]
  · rw [if_neg hid, if_neg hid]

/-- Forgetting nothing changes nothing when all links are among the nodes there are. -/
theorem truncate_size {f : Forest} (hf : f.Linked) (hroot : root < f.size) : f.truncate f.size = f := by
  have hmax : max f.size 1 = f.size := Nat.max_eq_left hroot
  refine ext_get? fun id => ?_
  rw [get?_truncate, hmax]
  by_cases hid : id < f.size
  · obtain ⟨e, he⟩ := exists_get? hid
    have hparent : e.parent.filter (· < f.size) = e.parent := by
      cases hp : e.parent with
      | none => rfl
      | some p => exact Option.filter_some_pos (decide_eq_true (hf.parent_lt ((parent?_of_get? he).trans hp)))
    have hchildren : e.children.filter (· < f.size) = e.children := by
      refine List.filter_eq_self.mpr fun c hc => decide_eq_true ?_
      have hm : c ∈ f.owned id := by
        rw [owned_of_get? he]
        exact List.mem_append_right _ hc
      exact hf.owned_lt hm
    rw [if_pos hid, he, Option.map_some, Entry.restrict, hparent, hchildren]
  · rw [if_neg hid, (get?_eq_none_iff f id).mpr (Nat.le_of_not_lt hid)]

/-- Forgetting the nodes added to a forest gives the forest back. -/
theorem Grown.undo {f g : Forest} (h : Grown f g) (hf : f.Linked) (hroot : root < f.size) : g.truncate f.size = f := by
  induction h with
  | refl => exact truncate_size hf hroot
  | @add g h node location id hg hadd ih =>
    obtain ⟨hc, -, rfl⟩ := add_eq_ok_iff.mp hadd
    have hcount : max f.size 1 ≤ g.size := Nat.max_le.mpr ⟨hg.size_le, Nat.lt_of_lt_of_le hroot hg.size_le⟩
    rw [truncate_add location hc hcount, ih]

end Forest

end LoopForest
