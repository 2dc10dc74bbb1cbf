import LoopForest.Proofs.Forest.Calls

/-!
# Owners and what they own

A link between two nodes is kept twice: upwards in the entry of the node that is owned, downwards in a field or in the child list of
the node that owns it. `Linked` says the two agree: a node stands once in what its owner owns, and in what no other node owns. It
holds of every forest that calls build (`Reached.linked`), whatever was refused or forgotten on the way, and with it every number in
a link is that of a node that exists.

Forgetting nodes cuts links from one end. It leaves none hanging because the nodes in the fields of a node are older than the node
(`Linked.field_lt`): a node that stays keeps its fields, and its child list and its owner are cut at the same count.
-/

namespace LoopForest

namespace Forest

/-- The two views of the links agree, and the fields of a node name older nodes. -/
structure Linked (f : Forest) : Prop where
  count_owned : ∀ p c, (f.owned p).count c = if f.parent? c = some p then 1 else 0
  field_lt : ∀ p node, f.node? p = some node → ∀ c ∈ node.fieldIds, c < p

namespace Linked

variable {f : Forest}

/-- A node owns the nodes whose owner it is. -/
theorem mem_owned_iff (h : f.Linked) (p c : NodeId) : c ∈ f.owned p ↔ f.parent? c = some p := by
  rw [← List.count_pos_iff, h.count_owned]
  by_cases hp : f.parent? c = some p <;> simp [hp]

/-- An owner exists. -/
theorem parent_lt (h : f.Linked) {p c : NodeId} (hp : f.parent? c = some p) : p < f.size := by
  have hm := (h.mem_owned_iff p c).mpr hp
  cases he : f.get? p with
  | none => simp [owned, he] at hm
  | some e => exact lt_size_of_get? he

/-- A node that is owned exists. -/
theorem owned_lt (h : f.Linked) {p c : NodeId} (hc : c ∈ f.owned p) : c < f.size :=
  lt_size_of_parent? ((h.mem_owned_iff p c).mp hc)

/-- No node is owned twice, be it by one node. -/
theorem nodup_owned (h : f.Linked) (p : NodeId) : (f.owned p).Nodup := by
  refine List.nodup_iff_count.mpr fun c => ?_
  rw [h.count_owned]
  split <;> omega

/-- The children of a node exist. -/
theorem child_lt (h : f.Linked) {p c : NodeId} (hc : c ∈ f.children p) : c < f.size :=
  h.owned_lt ((f.children_sublist_owned p).subset hc)

/-- No child is attached twice. -/
theorem nodup_children (h : f.Linked) (p : NodeId) : (f.children p).Nodup :=
  (f.children_sublist_owned p).nodup (h.nodup_owned p)

/-! ## Each call keeps the links consistent -/

theorem add (h : f.Linked) {node : Node} (location : Location) (hc : f.Claimable node.fieldIds) :
    Linked (f.withNode node location) := by
  constructor
  · intro p c
    rw [owned_withNode, parent?_withNode _ hc]
    by_cases hp : p = f.size
    · have hnew : f.parent? c ≠ some f.size := fun hpc => Nat.lt_irrefl _ (h.parent_lt hpc)
      rw [if_pos hp, hc.nodup.count, hp]
      by_cases hm : c ∈ node.fieldIds <;> simp [hm, hnew]
    · rw [if_neg hp, h.count_owned]
      by_cases hm : c ∈ node.fieldIds
      · have hp' : ¬f.size = p := fun h => hp h.symm
        simp [hm, hc.unowned c hm, hp']
      · rw [if_neg hm]
  · intro p n hn c hm
    rw [node?_withNode] at hn
    by_cases hp : p = f.size
    · rw [if_pos hp] at hn
      obtain rfl := Option.some.inj hn
      rw [hp]
      exact hc.lt_size c hm
    · rw [if_neg hp] at hn
      exact h.field_lt p n hn c hm

theorem link (h : f.Linked) {parent child : NodeId} (hp : parent < f.size) (hc : child < f.size)
    (hun : f.parent? child = none) : Linked (f.link parent child) := by
  constructor
  · intro p c
    rw [owned_link hp, parent?_link hc]
    by_cases hcc : c = child
    · have h0 : (f.owned p).count c = 0 := by rw [h.count_owned, hcc, hun]; simp
      by_cases hpp : p = parent
      · rw [if_pos hpp, if_pos hcc, List.count_append, h0, hpp, hcc]
        simp
      · have hpp' : ¬parent = p := fun h => hpp h.symm
        rw [if_neg hpp, if_pos hcc, h0]
        simp [hpp']
    · have hcc' : child ≠ c := fun h => hcc h.symm
      rw [if_neg hcc, ← h.count_owned]
      by_cases hpp : p = parent <;> simp [hpp, hcc']
  · intro p n hn c hm
    rw [node?_link] at hn
    exact h.field_lt p n hn c hm

/-- What a node that stays owns once nodes are forgotten: its fields are older than it and stay with it. -/
theorem owned_truncate (h : f.Linked) (count : Nat) (p : NodeId) :
    (f.truncate count).owned p = if p < max count 1 then (f.owned p).filter (· < max count 1) else [] := by
  rw [owned, get?_truncate]
  by_cases hp : p < max count 1
  · rw [if_pos hp, if_pos hp, owned]
    cases he : f.get? p with
    | none => rfl
    | some e =>
      have hfields : e.node.fieldIds.filter (· < max count 1) = e.node.fieldIds := by
        refine List.filter_eq_self.mpr fun c hc => decide_eq_true ?_
        have := h.field_lt p e.node (node?_of_get? he) c hc
        exact Nat.lt_trans this hp
      simp only [Option.map_some, Option.getD_some, Entry.owned, Entry.restrict, List.filter_append, hfields]
  · rw [if_neg hp, if_neg hp]
    rfl

theorem truncate (h : f.Linked) (count : Nat) : Linked (f.truncate count) := by
  constructor
  · intro p c
    rw [h.owned_truncate, parent?_truncate]
    by_cases hp : p < max count 1
    · rw [if_pos hp]
      by_cases hc : c < max count 1
      · have heq : (f.parent? c).filter (· < max count 1) = some p ↔ f.parent? c = some p := by
          rw [Option.filter_eq_some_iff]
          simp only [hp, decide_true, and_true]
        have hkept : decide (c < max count 1) = true := decide_eq_true hc
        rw [if_pos hc, List.count_filter (p := fun x => decide (x < max count 1)) hkept, h.count_owned]
        simp only [heq]
      · have hc' : c ∉ (f.owned p).filter (· < max count 1) := fun hm => hc (of_decide_eq_true (List.mem_filter.mp hm).2)
        rw [if_neg hc, List.count_eq_zero_of_not_mem hc']
        rfl
    · have hcut : (if c < max count 1 then (f.parent? c).filter (· < max count 1) else none) ≠ some p := by
        intro h'
        split at h'
        · exact hp (of_decide_eq_true (Option.filter_eq_some_iff.mp h').2)
        · cases h'
      rw [if_neg hp, if_neg hcut]
      rfl
  · intro p n hn c hm
    rw [node?_truncate] at hn
    by_cases hp : p < max count 1
    · rw [if_pos hp] at hn
      exact h.field_lt p n hn c hm
    · rw [if_neg hp] at hn
      cases hn

theorem empty : Linked empty := by
  constructor
  · intro p c
    cases p <;> cases c <;> rfl
  · intro p n hn c hm
    cases p with
    | zero => cases hn; cases hm
    | succ p => cases hn

theorem after (h : f.Linked) (call : Call) : Linked (f.after call) := by
  rcases after_cases f call with hg | ⟨node, location, -, hc, hg⟩ | ⟨parent, child, -, hp, hc, hun, -, hg⟩ | ⟨count, -, hg⟩
  · rw [hg]; exact h
  · rw [hg]; exact h.add location hc
  · rw [hg]; exact h.link hp hc hun
  · rw [hg]; exact h.truncate count

end Linked

/-- The links of every forest that calls build are consistent. -/
theorem Reached.linked {f : Forest} (h : f.Reached) : f.Linked :=
  Reached.induction Linked.empty (fun _ call hf => hf.after call) h

/-- In a forest that calls build, a number stands in the fields and children of a node once when that node owns it, and otherwise not
at all. The numbers in the fields are smaller than the node's own, and every number in a field, in a child list or of an owner is
that of a node that exists. -/
theorem links_consistent {f : Forest} (hf : f.Reached) {p : NodeId} {e : Entry} (hp : f.get? p = some e) :
    (∀ c, (e.node.fieldIds ++ e.children).count c = if f.parent? c = some p then 1 else 0) ∧
      (∀ c ∈ e.node.fieldIds, c < p) ∧ (∀ c ∈ e.node.fieldIds ++ e.children, c < f.size) ∧
      ∀ owner, e.parent = some owner → owner < f.size := by
  have h := hf.linked
  have howned : e.node.fieldIds ++ e.children = f.owned p := (owned_of_get? hp).symm
  rw [howned]
  refine ⟨h.count_owned p, h.field_lt p e.node (by simp [node?, hp]), fun c hc => h.owned_lt hc, fun owner ho => ?_⟩
  exact h.parent_lt ((parent?_of_get? hp).trans ho)

/-- The statement at a node whose child was refused a second owner and then forgotten. -/
theorem links_consistent_child_forgotten :
    let f := empty.run [.add (.var "i" (some "int")) ⟨1, 5⟩, .add (.assignment (.node 1) (.raw "0")) ⟨1, 5⟩,
      .add (.var "j" none) ⟨2, 1⟩, .addChild 2 3, .add (.struct "S" [3, 3]) ⟨3, 1⟩, .addChild 3 2, .addChild 0 2, .truncate 3]
    f.get? 2 = some ⟨.assignment (.node 1) (.raw "0"), ⟨1, 5⟩, some 0, []⟩ ∧
      (∀ c, ([1] ++ []).count c = if f.parent? c = some 2 then 1 else 0) ∧
      (∀ c ∈ [1], c < 2) ∧ (∀ c ∈ [1] ++ [], c < f.size) ∧ ∀ owner, some 0 = some owner → owner < f.size := by
  intro f
  have hp : f.get? 2 = some ⟨.assignment (.node 1) (.raw "0"), ⟨1, 5⟩, some 0, []⟩ := by decide +kernel
  exact ⟨hp, links_consistent ⟨_, rfl⟩ hp⟩

end Forest

end LoopForest
