import LoopForest.Proofs.Forest.Lineage
import Mathlib.Data.List.Nodup

/-!
# Subtrees

The nodes below a node are met in preorder: the node, then everything below the first node it owns, then everything below the second,
and so on, the nodes of its fields before its children (`Preorder`). In a forest that calls build every node has such a list, because
an owned node has a longer lineage than its owner and no lineage is longer than the forest is large (`downward_induction`).

The downward view agrees with the upward one. The nodes of the preorder are those with the node in their lineage
(`Preorder.mem_iff`), and none is met twice (`Preorder.nodup`), so that there are no more of them than the forest has nodes.
-/

namespace LoopForest

namespace Forest

/-- A node and all nodes below it, an owner before what it owns and each owned node with all that is below it before the next one. -/
inductive Preorder (f : Forest) : NodeId → List NodeId → Prop where
  | node {id : NodeId} {e : Entry} {below : NodeId → List NodeId} (he : f.get? id = some e)
    (hbelow : ∀ c ∈ e.node.fieldIds ++ e.children, Preorder f c (below c)) :
    Preorder f id (id :: (e.node.fieldIds ++ e.children).flatMap below)

variable {f : Forest}

theorem mem_owned_of_get? {id c : NodeId} {e : Entry} (he : f.get? id = some e) :
    c ∈ f.owned id ↔ c ∈ e.node.fieldIds ++ e.children := by
  rw [owned_of_get? he, Entry.owned]

/-- What holds of a node when it holds of all nodes it owns holds of every node. -/
theorem downward_induction (hf : f.Linked) (hg : f.Grounded) {P : NodeId → Prop}
    (step : ∀ id, (∀ c ∈ f.owned id, P c) → P id) (id : NodeId) : P id := by
  -- the lineages of the nodes owned are longer by one, and none is longer than the forest
  have key : ∀ room id line, f.Lineage id line → f.size + 1 ≤ line.length + room → P id := by
    intro room
    induction room with
    | zero =>
      intro id line hl hroom
      refine step id fun c hc => ?_
      have hid : id < f.size := hf.parent_lt ((hf.mem_owned_iff id c).mp hc)
      have := hl.length_le hf hid
      omega
    | succ room ih =>
      intro id line hl hroom
      refine step id fun c hc => ?_
      have hparent := (hf.mem_owned_iff id c).mp hc
      refine ih c (c :: line) (.under hparent hl) ?_
      rw [List.length_cons]
      omega
  obtain ⟨line, hl⟩ := hg id
  exact key (f.size + 1) id line hl (Nat.le_add_left _ _)

/-- A number not given out has nothing above it, not even itself. -/
theorem ancestors_eq_nil {id : NodeId} (hid : f.size ≤ id) : f.ancestors id = [] := by
  unfold ancestors
  cases f.size with
  | zero => rfl
  | succ count => rw [climb, (get?_eq_none_iff f id).mpr hid]

namespace Lineage

/-- A lineage goes on with the owner of its node. -/
theorem exists_of_parent {id p : NodeId} {line : List NodeId} (h : f.Lineage id line) (hp : f.parent? id = some p) :
    ∃ rest, f.Lineage p rest ∧ line = id :: rest := by
  cases h with
  | top hnone =>
    rw [hnone] at hp
    cases hp
  | @under _ p' rest hp' hrest =>
    obtain rfl := Option.some.inj (hp'.symm.trans hp)
    exact ⟨rest, hrest, rfl⟩

/-- No lineage has two nodes of one owner. -/
theorem eq_of_siblings {id p c d : NodeId} {line : List NodeId} (h : f.Lineage id line) (hc : c ∈ line) (hd : d ∈ line)
    (hcp : f.parent? c = some p) (hdp : f.parent? d = some p) : c = d := by
  obtain ⟨fromC, hlc, hsc⟩ := h.of_mem hc
  obtain ⟨fromD, hld, hsd⟩ := h.of_mem hd
  obtain ⟨above, habove, rfl⟩ := hlc.exists_of_parent hcp
  obtain ⟨above', habove', rfl⟩ := hld.exists_of_parent hdp
  obtain rfl := habove.unique habove'
  have hsuffix : c :: above <:+ d :: above := List.suffix_of_suffix_length_le hsc hsd (Nat.le_of_eq rfl)
  exact (List.cons.inj (hsuffix.eq_of_length rfl)).1

end Lineage

namespace Preorder

/-- Every node that exists has a preorder. -/
theorem exists_of_lt (hf : f.Linked) (hg : f.Grounded) {id : NodeId} (hid : id < f.size) : ∃ nodes, f.Preorder id nodes := by
  induction id using downward_induction hf hg with
  | step id ih =>
    obtain ⟨e, he⟩ := exists_get? hid
    have hbelow : ∀ c, ∃ nodes, c ∈ e.node.fieldIds ++ e.children → f.Preorder c nodes := by
      intro c
      by_cases hc : c ∈ e.node.fieldIds ++ e.children
      · have hc' := (mem_owned_of_get? he).mpr hc
        obtain ⟨nodes, hnodes⟩ := ih c hc' (hf.owned_lt hc')
        exact ⟨nodes, fun _ => hnodes⟩
      · exact ⟨[], fun h => absurd h hc⟩
    obtain ⟨below, hbelow⟩ := Classical.axiomOfChoice hbelow
    exact ⟨_, .node he hbelow⟩

/-- Below a node without children is what is below the nodes it refers to. -/
theorem childless {id : NodeId} {node : Node} (hnode : f.node? id = some node) (hnil : f.children id = [])
    (below : NodeId → List NodeId) (hbelow : ∀ c ∈ node.fieldIds, f.Preorder c (below c)) :
    f.Preorder id (id :: node.fieldIds.flatMap below) := by
  obtain ⟨e, he, rfl⟩ := Option.map_eq_some_iff.mp hnode
  have howned : e.node.fieldIds ++ e.children = e.node.fieldIds := by
    have hchildren : e.children = [] := by simpa [children, he] using hnil
    rw [hchildren, List.append_nil]
  have h := Preorder.node he (howned.symm ▸ hbelow)
  rwa [howned] at h

variable {id : NodeId} {nodes : List NodeId}

theorem mem_self (h : f.Preorder id nodes) : id ∈ nodes := by
  cases h
  exact List.mem_cons_self

/-- All nodes of a preorder exist. -/
theorem lt_size (h : f.Preorder id nodes) : ∀ d ∈ nodes, d < f.size := by
  induction h with
  | @node id e below he _ ih =>
    intro d hd
    rcases List.mem_cons.mp hd with rfl | hd
    · exact lt_size_of_get? he
    · obtain ⟨c, hc, hdc⟩ := List.mem_flatMap.mp hd
      exact ih c hc d hdc

/-- With a node, a preorder has the nodes it owns. -/
theorem mem_of_owned (h : f.Preorder id nodes) {p d : NodeId} (hp : p ∈ nodes) (hd : d ∈ f.owned p) : d ∈ nodes := by
  induction h with
  | @node id e below he hbelow ih =>
    refine List.mem_cons_of_mem _ (List.mem_flatMap.mpr ?_)
    rcases List.mem_cons.mp hp with rfl | hp
    · have hc := (mem_owned_of_get? he).mp hd
      exact ⟨d, hc, (hbelow d hc).mem_self⟩
    · obtain ⟨c, hc, hpc⟩ := List.mem_flatMap.mp hp
      exact ⟨c, hc, ih c hc hpc⟩

/-- A node of a preorder has the node on top of it in its lineage. -/
theorem mem_lineage (hf : f.Linked) (h : f.Preorder id nodes) {d : NodeId} {line : List NodeId} (hd : d ∈ nodes)
    (hl : f.Lineage d line) : id ∈ line := by
  induction h with
  | @node id e below he _ ih =>
    rcases List.mem_cons.mp hd with rfl | hd
    · exact List.mem_of_mem_head? hl.head?
    · obtain ⟨c, hc, hdc⟩ := List.mem_flatMap.mp hd
      have hparent := (hf.mem_owned_iff id c).mp ((mem_owned_of_get? he).mpr hc)
      obtain ⟨fromC, hlc, hsuffix⟩ := hl.of_mem (ih c hc hdc)
      obtain ⟨above, habove, rfl⟩ := hlc.exists_of_parent hparent
      exact hsuffix.subset (List.mem_cons_of_mem _ (List.mem_of_mem_head? habove.head?))

/-- The nodes of a preorder are those with the node on top of it in their lineage. -/
theorem mem_iff (hf : f.Linked) (h : f.Preorder id nodes) {d : NodeId} {line : List NodeId} (hl : f.Lineage d line) :
    d ∈ nodes ↔ id ∈ line := by
  refine ⟨fun hd => h.mem_lineage hf hd hl, fun hid => ?_⟩
  induction hl with
  | top _ =>
    obtain rfl := List.mem_singleton.mp hid
    exact h.mem_self
  | @under d p line hparent _ ih =>
    rcases List.mem_cons.mp hid with rfl | hid
    · exact h.mem_self
    · exact h.mem_of_owned (ih hid) ((hf.mem_owned_iff p d).mpr hparent)

/-- No node is met twice. -/
theorem nodup (hf : f.Linked) (hg : f.Grounded) (h : f.Preorder id nodes) : nodes.Nodup := by
  induction h with
  | @node id e below he hbelow ih =>
    have hparent : ∀ c ∈ e.node.fieldIds ++ e.children, f.parent? c = some id := fun c hc =>
      (hf.mem_owned_iff id c).mp ((mem_owned_of_get? he).mpr hc)
    refine List.nodup_cons.mpr ⟨fun hm => ?_, List.nodup_flatMap.mpr ⟨ih, ?_⟩⟩
    · obtain ⟨c, hc, hid⟩ := List.mem_flatMap.mp hm
      obtain ⟨line, hl⟩ := hg id
      have hline := (Lineage.under (hparent c hc) hl).nodup
      exact (List.nodup_cons.mp hline).1 ((hbelow c hc).mem_lineage hf hid hl)
    · have howned : (e.node.fieldIds ++ e.children).Nodup := by
        have := hf.nodup_owned id
        rwa [owned_of_get? he] at this
      refine howned.imp_of_mem fun {c c'} hc hc' hne d hd hd' => hne ?_
      obtain ⟨line, hl⟩ := hg d
      exact hl.eq_of_siblings ((hbelow c hc).mem_lineage hf hd hl) ((hbelow c' hc').mem_lineage hf hd' hl) (hparent c hc)
        (hparent c' hc')

/-- No more nodes are met than there are. -/
theorem length_le (hf : f.Linked) (hg : f.Grounded) (h : f.Preorder id nodes) : nodes.length ≤ f.size := by
  have hsub : nodes ⊆ List.range f.size := fun d hd => List.mem_range.mpr (h.lt_size d hd)
  have := (h.nodup hf hg).length_le_of_subset hsub
  rwa [List.length_range] at this

end Preorder

end Forest

end LoopForest
