import LoopForest.Proofs.Forest.Ownership

/-!
# Lines of owners

The lineage of a node is the node, its owner, the owner of that one and so on, up to a node that nothing owns. `Lineage` says which
list that is and sets no bound on its length: a node from which the owners run in a circle has none. `Search` is the search for a
node in a lineage, which likewise has an answer only when it ends.

In every forest that calls build, every node has a lineage (`Reached.grounded`). No order of the numbers shows this, because a child
may be older or younger than its parent: a new link keeps the lineages because it is made from a node without an owner to one whose
own lineage avoids it, and that is what the search in `addChild` finds out. A lineage repeats no node (`Lineage.nodup`), so it is no
longer than the forest is large, and the walk of `ancestors` is never cut off (`ancestors_eq`).
-/

namespace LoopForest

namespace Forest

/-- A node, its owner, the owner of that one and so on, up to a node that nothing owns. -/
inductive Lineage (f : Forest) : NodeId → List NodeId → Prop where
  | top {id : NodeId} : f.parent? id = none → Lineage f id [id]
  | under {id parent : NodeId} {line : List NodeId} :
      f.parent? id = some parent → Lineage f parent line → Lineage f id (id :: line)

/-- The search for `child` from a node upwards, one owner after the other, ends with this answer. -/
inductive Search (f : Forest) (child : NodeId) : NodeId → Bool → Prop where
  | found : Search f child child true
  | missed {id : NodeId} : id ≠ child → f.parent? id = none → Search f child id false
  | onwards {id parent : NodeId} {found : Bool} :
      id ≠ child → f.parent? id = some parent → Search f child parent found → Search f child id found

/-- Every node has a lineage: no owners run in a circle. -/
def Grounded (f : Forest) : Prop := ∀ id, ∃ line, f.Lineage id line

namespace Lineage

variable {f g : Forest} {id : NodeId} {line : List NodeId}

/-- A lineage begins with its node. -/
theorem head? (h : f.Lineage id line) : line.head? = some id := by
  cases h <;> rfl

theorem unique {line' : List NodeId} (h : f.Lineage id line) (h' : f.Lineage id line') : line = line' := by
  induction h generalizing line' with
  | top hp =>
    cases h' with
    | top _ => rfl
    | under hp' _ => rw [hp] at hp'; cases hp'
  | under hp _ ih =>
    cases h' with
    | top hp' => rw [hp] at hp'; cases hp'
    | under hp' hl' =>
      rw [hp] at hp'
      obtain rfl := Option.some.inj hp'
      rw [ih hl']

/-- The lineage of a node of a lineage is the rest of it from that node on. -/
theorem of_mem (h : f.Lineage id line) {x : NodeId} (hx : x ∈ line) : ∃ rest, f.Lineage x rest ∧ rest <:+ line := by
  induction h with
  | @top id hp =>
    obtain rfl := List.mem_singleton.mp hx
    exact ⟨[x], .top hp, List.suffix_refl _⟩
  | @under id parent line hp hl ih =>
    rcases List.mem_cons.mp hx with rfl | hx
    · exact ⟨x :: line, .under hp hl, List.suffix_refl _⟩
    · obtain ⟨rest, hr, hs⟩ := ih hx
      exact ⟨rest, hr, hs.trans (List.suffix_cons _ _)⟩

/-- A lineage names no node twice: the second time, the node would have a shorter lineage than the first. -/
theorem nodup (h : f.Lineage id line) : line.Nodup := by
  induction h with
  | top _ => exact List.pairwise_singleton _ _
  | @under id parent line hp hl ih =>
    refine List.nodup_cons.mpr ⟨fun hm => ?_, ih⟩
    obtain ⟨rest, hr, hs⟩ := hl.of_mem hm
    have heq : id :: line = rest := (Lineage.under hp hl).unique hr
    have := hs.length_le
    rw [← heq, List.length_cons] at this
    omega

/-- All nodes of a lineage exist when the first one does. -/
theorem lt_size (hf : f.Linked) (h : f.Lineage id line) (hid : id < f.size) : ∀ x ∈ line, x < f.size := by
  induction h with
  | top _ => exact fun x hx => List.mem_singleton.mp hx ▸ hid
  | under hp _ ih => exact List.forall_mem_cons.mpr ⟨hid, ih (hf.parent_lt hp)⟩

/-- A lineage has at most as many nodes as the forest. -/
theorem length_le (hf : f.Linked) (h : f.Lineage id line) (hid : id < f.size) : line.length ≤ f.size := by
  have hsub : line ⊆ List.range f.size := fun x hx => List.mem_range.mpr (h.lt_size hf hid x hx)
  have := h.nodup.length_le_of_subset hsub
  rwa [List.length_range] at this

/-- A walk over at least as many nodes as the lineage has is the whole lineage. -/
theorem climb_eq (hf : f.Linked) (h : f.Lineage id line) (hid : id < f.size) {count : Nat} (hcount : line.length ≤ count) :
    f.climb count id = line := by
  induction h generalizing count with
  | @top id hp =>
    obtain ⟨e, he⟩ := exists_get? hid
    have hparent : e.parent = none := (parent?_of_get? he).symm.trans hp
    cases count with
    | zero => cases hcount
    | succ count => simp [climb, he, hparent]
  | @under id parent line hp _ ih =>
    obtain ⟨e, he⟩ := exists_get? hid
    have hparent : e.parent = some parent := (parent?_of_get? he).symm.trans hp
    cases count with
    | zero => cases hcount
    | succ count => simp [climb, he, hparent, ih (hf.parent_lt hp) (Nat.le_of_succ_le_succ hcount)]

/-- The walk upwards is never cut off: it is the whole lineage. -/
theorem ancestors_eq (hf : f.Linked) (h : f.Lineage id line) (hid : id < f.size) : f.ancestors id = line :=
  h.climb_eq hf hid (h.length_le hf hid)

/-- The search in a lineage ends, and it finds the nodes of the lineage. -/
theorem search (h : f.Lineage id line) (child : NodeId) : f.Search child id (decide (child ∈ line)) := by
  induction h with
  | @top id hp =>
    by_cases hc : id = child
    · subst hc
      simpa using Search.found
    · have hm : child ∉ [id] := fun hm => hc (List.mem_singleton.mp hm).symm
      rw [decide_eq_false hm]
      exact .missed hc hp
  | @under id parent line hp hl ih =>
    by_cases hc : id = child
    · subst hc
      simpa using Search.found
    · have hm : child ∈ id :: line ↔ child ∈ line := by
        rw [List.mem_cons, or_iff_right (fun h => hc h.symm)]
      rw [decide_eq_decide.mpr hm]
      exact .onwards hc hp ih

/-! ## Lineages when links are made or cut -/

/-- A lineage stays what it is when its nodes keep their owners. -/
theorem congr (h : f.Lineage id line) (hkeep : ∀ x ∈ line, g.parent? x = f.parent? x) : g.Lineage id line := by
  induction h with
  | top hp => exact .top ((hkeep _ List.mem_cons_self).trans hp)
  | under hp _ ih =>
    exact .under ((hkeep _ List.mem_cons_self).trans hp) (ih fun x hx => hkeep x (List.mem_cons_of_mem _ hx))

/-- New owners lengthen lineages at their tops: when the tops have lineages in the new forest, so does every node. -/
theorem extend (h : f.Lineage id line) (hkeep : ∀ c p, f.parent? c = some p → g.parent? c = some p)
    (htop : ∀ c, f.parent? c = none → ∃ line, g.Lineage c line) : ∃ line, g.Lineage id line := by
  induction h with
  | top hp => exact htop _ hp
  | under hp _ ih =>
    obtain ⟨line, hl⟩ := ih
    exact ⟨_, .under (hkeep _ _ hp) hl⟩

/-- Forgetting nodes cuts lineages off at the first node whose owner is forgotten. -/
theorem truncate (h : f.Lineage id line) (count : Nat) : ∃ line, (f.truncate count).Lineage id line := by
  induction h with
  | @top id hp => exact ⟨[id], .top (by rw [parent?_truncate, hp]; simp)⟩
  | @under id parent line hp _ ih =>
    obtain ⟨line, hl⟩ := ih
    have hparent := parent?_truncate f count id
    rw [hp] at hparent
    by_cases h : id < max count 1 ∧ parent < max count 1
    · rw [if_pos h.1, Option.filter_some_pos (by simpa using h.2)] at hparent
      exact ⟨id :: line, .under hparent hl⟩
    · refine ⟨[id], .top ?_⟩
      rw [hparent]
      by_cases hid : id < max count 1
      · rw [if_pos hid, Option.filter_some_neg (by simpa using fun hp => h ⟨hid, hp⟩)]
      · rw [if_neg hid]

end Lineage

/-! ## Every forest that calls build is grounded -/

namespace Grounded

variable {f : Forest}

theorem add (h : f.Grounded) {node : Node} (location : Location) (hc : f.Claimable node.fieldIds) :
    Grounded (f.withNode node location) := by
  intro id
  obtain ⟨line, hl⟩ := h id
  refine hl.extend ?_ ?_
  · intro c p hp
    have hm : c ∉ node.fieldIds := fun hm => by rw [hc.unowned c hm] at hp; cases hp
    rw [parent?_withNode _ hc, if_neg hm, hp]
  · intro c hp
    have hnew : f.size ∉ node.fieldIds := fun hm => Nat.lt_irrefl _ (hc.lt_size _ hm)
    have hparent := parent?_withNode location hc
    by_cases hm : c ∈ node.fieldIds
    · refine ⟨[c, f.size], .under ((hparent c).trans (if_pos hm)) (.top ?_)⟩
      rw [hparent, if_neg hnew, parent?_eq_none_of_le (Nat.le_refl _)]
    · exact ⟨[c], .top (by rw [hparent, if_neg hm, hp])⟩

/-- The parent's lineage avoids the child, so it stays, and the child's goes on with it. -/
theorem link (h : f.Grounded) (hf : f.Linked) {parent child : NodeId} (hp : parent < f.size) (hc : child < f.size)
    (hun : f.parent? child = none) (hm : child ∉ f.ancestors parent) : Grounded (f.link parent child) := by
  obtain ⟨above, ha⟩ := h parent
  rw [ha.ancestors_eq hf hp] at hm
  have habove : (f.link parent child).Lineage parent above := by
    refine ha.congr fun x hx => ?_
    have hx' : x ≠ child := fun h => hm (h ▸ hx)
    rw [parent?_link hc, if_neg hx']
  intro id
  obtain ⟨line, hl⟩ := h id
  refine hl.extend ?_ ?_
  · intro c p hcp
    have hne : c ≠ child := fun h => by rw [h, hun] at hcp; cases hcp
    rw [parent?_link hc, if_neg hne, hcp]
  · intro c hcp
    by_cases hne : c = child
    · rw [hne]
      exact ⟨child :: above, .under (by rw [parent?_link hc, if_pos rfl]) habove⟩
    · exact ⟨[c], .top (by rw [parent?_link hc, if_neg hne, hcp])⟩

theorem truncate (h : f.Grounded) (count : Nat) : Grounded (f.truncate count) := by
  intro id
  obtain ⟨line, hl⟩ := h id
  exact hl.truncate count

theorem empty : Grounded empty := by
  intro id
  refine ⟨[id], .top ?_⟩
  cases id <;> rfl

theorem after (h : f.Grounded) (hf : f.Linked) (call : Call) : Grounded (f.after call) := by
  rcases after_cases f call with hg | ⟨node, location, -, hc, hg⟩ | ⟨parent, child, -, hp, hc, hun, hm, hg⟩ | ⟨count, -, hg⟩
  · rw [hg]; exact h
  · rw [hg]; exact h.add location hc
  · rw [hg]; exact h.link hf hp hc hun hm
  · rw [hg]; exact h.truncate count

end Grounded

theorem Reached.grounded {f : Forest} (h : f.Reached) : f.Grounded := by
  have key : f.Linked ∧ f.Grounded :=
    Reached.induction (P := fun f => f.Linked ∧ f.Grounded) ⟨Linked.empty, Grounded.empty⟩
      (fun _ call hf => ⟨hf.1.after call, hf.2.after hf.1 call⟩) h
  exact key.2

/-- The check that keeps circles out is the search for the child in the lineage of the parent. -/
theorem addChild_eq_cycle_iff {f : Forest} (hf : f.Linked) {parent child : NodeId} {line : List NodeId}
    (hl : f.Lineage parent line) (hp : parent < f.size) (hc : child < f.size) (hun : f.parent? child = none) :
    f.addChild parent child = .error (.cycle child parent) ↔ child ∈ line := by
  obtain ⟨e, he⟩ := exists_get? hc
  have hparent : e.parent = none := (parent?_of_get? he).symm.trans hun
  have hp' : ¬f.size ≤ parent := Nat.not_le.mpr hp
  unfold addChild
  rw [if_neg hp', hl.ancestors_eq hf hp]
  by_cases hm : child ∈ line <;> simp [he, hparent, hm]

/-- In a forest that calls build, the owners above a node never run in a circle: the node has a lineage, which names no node twice and
has at most as many nodes as the forest. That lineage is what `ancestors` answers, and it begins with the node. The search for any
child in it, which decides whether `addChild` refuses the child as a circle, comes to an end. -/
theorem lineage_ends {f : Forest} (hf : f.Reached) {id : NodeId} (hid : id < f.size) :
    ∃ line, f.Lineage id line ∧ line.Nodup ∧ line.length ≤ f.size ∧ f.ancestors id = line ∧ line.head? = some id ∧
      ∀ child, ∃ found, f.Search child id found ∧
        (child < f.size → f.parent? child = none → (f.addChild id child = .error (.cycle child id) ↔ found = true)) := by
  have hlinked := hf.linked
  obtain ⟨line, hl⟩ := hf.grounded id
  refine ⟨line, hl, hl.nodup, hl.length_le hlinked hid, hl.ancestors_eq hlinked hid, hl.head?, fun child => ?_⟩
  refine ⟨decide (child ∈ line), hl.search child, fun hc hun => ?_⟩
  rw [addChild_eq_cycle_iff hlinked hl hid hc hun, decide_eq_true_iff]

/-- The statement at a node whose lineage goes down and up in the order of the numbers. -/
theorem lineage_ends_zigzag :
    let f := empty.run [.add (.var "a" none) ⟨1, 1⟩, .add (.var "b" none) ⟨1, 3⟩, .add (.var "c" none) ⟨1, 5⟩, .addChild 1 3,
      .addChild 2 1, .addChild 3 2, .addChild 0 2]
    1 < f.size ∧ ∃ line, f.Lineage 1 line ∧ line.Nodup ∧ line.length ≤ f.size ∧ f.ancestors 1 = line ∧ line.head? = some 1 ∧
      ∀ child, ∃ found, f.Search child 1 found ∧
        (child < f.size → f.parent? child = none → (f.addChild 1 child = .error (.cycle child 1) ↔ found = true)) := by
  intro f
  have hid : 1 < f.size := by decide +kernel
  exact ⟨hid, lineage_ends ⟨_, rfl⟩ hid⟩

end Forest

end LoopForest
