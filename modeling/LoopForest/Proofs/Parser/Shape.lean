import LoopForest.Proofs.Forest.Rendering
import LoopForest.Proofs.Parser.Additions

/-!
# The shape of a loop

A loop in a forest is a node that refers to others by number, and nothing in the types says that these are the nodes of its clauses.
They are: in every parser in use, a loop is the last of six nodes that stand one behind the other, with the owners they should have
(`Forest.HoldsLoop`), and the root's children are such loops (`Reached.shaped`). Additions bring new loops in this shape and change
neither a node nor an owner of an older one (`Forest.keepsOwners_extend`), so they keep it.

When a parser is only used to scan, there is nothing in its forest but the root and the loops it owns: the numbers of the loops are
then known from their count, and so is the length of the outline.
-/

namespace LoopForest

namespace Forest

/-! ## What an addition leaves as it is -/

/-- The nodes of the first forest are nodes of the second one, under their numbers, at their places and with their owners. -/
structure KeepsOwners (f g : Forest) : Prop extends f.Keeps g where
  parent?_eq : ∀ id < f.size, g.parent? id = f.parent? id

namespace KeepsOwners

variable {f g h : Forest}

theorem refl (f : Forest) : f.KeepsOwners f := ⟨⟨Nat.le_refl _, fun _ _ => rfl, fun _ _ => rfl⟩, fun _ _ => rfl⟩

theorem trans (hfg : f.KeepsOwners g) (hgh : g.KeepsOwners h) : f.KeepsOwners h := by
  refine ⟨hfg.toKeeps.trans hgh.toKeeps, fun id hid => ?_⟩
  rw [hgh.parent?_eq id (Nat.lt_of_lt_of_le hid hfg.size_le), hfg.parent?_eq id hid]

/-- A node is added that takes over none of the nodes there were. -/
theorem add (hfg : f.KeepsOwners g) {node : Node} (location : Location) (hc : g.Claimable node.fieldIds)
    (hnew : ∀ c ∈ node.fieldIds, f.size ≤ c) : f.KeepsOwners (g.withNode node location) := by
  refine ⟨hfg.toKeeps.trans (.withNode g node location), fun id hid => ?_⟩
  have hold : id ∉ node.fieldIds := fun hm => Nat.not_lt.mpr (hnew id hm) hid
  rw [parent?_withNode location hc, if_neg hold, hfg.parent?_eq id hid]

end KeepsOwners

variable {f : Forest}

/-- Two nodes are added, of which the second takes over the first. -/
theorem keepsOwners_withPair {first second : Node} (hroot : root < f.size) (hfirst : first.fieldIds = [])
    (hsecond : second.fieldIds = [f.size]) (location : Location) :
    f.KeepsOwners ((f.withNode first location).withNode second location) := by
  have hc : f.Claimable first.fieldIds := hfirst ▸ claimable_nil f
  have hc' : (f.withNode first location).Claimable second.fieldIds := hsecond ▸ claimable_withNode hroot hc location
  have hnew : ∀ c ∈ second.fieldIds, f.size ≤ c := by
    rw [hsecond]
    exact fun c hm => Nat.le_of_eq (List.mem_singleton.mp hm).symm
  have hfirst' : ∀ c ∈ first.fieldIds, f.size ≤ c := by
    rw [hfirst]
    exact nofun
  exact ((KeepsOwners.refl f).add location hc hfirst').add location hc' hnew

theorem keepsOwners_withLoop (hroot : root < f.size) (l : Loop) (body : List Token) (location : Location) :
    f.KeepsOwners (f.withLoop l body location) := by
  refine ⟨f.keeps_withLoop l body location, fun id hid => ?_⟩
  have hnew : id ∉ [f.size + 1, f.size + 2, f.size + 4] := by
    simp only [List.mem_cons, List.not_mem_nil, or_false]
    omega
  have hstep : id ≠ f.size + 3 := by omega
  rw [parent?_withLoop hroot, if_neg hnew, parent?_withClauses hroot, if_neg hstep, if_neg (Nat.ne_of_lt hid)]

/-- An addition changes no node and no owner of a node there was. -/
theorem keepsOwners_extend (hroot : root < f.size) (a : Addition) : f.KeepsOwners (f.extend a) := by
  cases a with
  | target t => exact (KeepsOwners.refl f).add _ (claimable_nil f) nofun
  | initialization i => exact keepsOwners_withPair hroot rfl rfl _
  | condition c place => exact (KeepsOwners.refl f).add _ (claimable_nil f) nofun
  | update u => exact keepsOwners_withPair hroot rfl rfl _
  | loop l body location => exact keepsOwners_withLoop hroot l body location
  | rootLoop l body location =>
    have hloop := keepsOwners_withLoop hroot l body location
    have hlt : f.size + 5 < (f.withLoop l body location).size := by
      rw [size_withLoop]
      exact Nat.lt_succ_self _
    refine ⟨hloop.toKeeps.trans (.link _ root (f.size + 5)), fun id hid => ?_⟩
    have hne : id ≠ f.size + 5 := by omega
    rw [extend, parent?_link hlt, if_neg hne, hloop.parent?_eq id hid]

/-! ## The six nodes of a loop -/

/-- From `first` on stand the six nodes of a loop with this body: its variable and the assignment to it, its condition, the expression
of its update and the assignment of that, and the loop. Each but the last is owned by the node that refers to it. -/
structure HoldsLoop (f : Forest) (first : NodeId) (l : Loop) (body : List Token) : Prop where
  target : f.node? first = some (.var l.initialization.target.name l.initialization.target.type)
  initialization : f.node? (first + 1) = some (.assignment (.node first) (.raw l.initialization.value))
  condition : f.node? (first + 2) = some (.loopCondition l.condition.left l.condition.comparator.value l.condition.right)
  step : f.node? (first + 3) = some (.binary l.update.operator (.raw l.update.target) (.raw l.update.value))
  update : f.node? (first + 4) = some (.assignment (.raw l.update.target) (.node (first + 3)))
  loop : f.node? (first + 5) = some (.forLoop (first + 1) (first + 2) (first + 4) body)
  target_owner : f.parent? first = some (first + 1)
  initialization_owner : f.parent? (first + 1) = some (first + 5)
  condition_owner : f.parent? (first + 2) = some (first + 5)
  step_owner : f.parent? (first + 3) = some (first + 4)
  update_owner : f.parent? (first + 4) = some (first + 5)

theorem lt_size_of_node? {id : NodeId} {node : Node} (h : f.node? id = some node) : id < f.size := by
  obtain ⟨e, he, -⟩ := Option.map_eq_some_iff.mp h
  exact lt_size_of_get? he

theorem HoldsLoop.keep {g : Forest} {first : NodeId} {l : Loop} {body : List Token} (h : f.HoldsLoop first l body)
    (hfg : f.KeepsOwners g) : g.HoldsLoop first l body := by
  have hlast := lt_size_of_node? h.loop
  have hlt : ∀ i ≤ 5, first + i < f.size := fun i hi => Nat.lt_of_le_of_lt (Nat.add_le_add_left hi first) hlast
  have hnode : ∀ i ≤ 5, g.node? (first + i) = f.node? (first + i) := fun i hi => hfg.node?_eq _ (hlt i hi)
  have hparent : ∀ i ≤ 5, g.parent? (first + i) = f.parent? (first + i) := fun i hi => hfg.parent?_eq _ (hlt i hi)
  exact ⟨(hnode 0 (by decide)).trans h.target, (hnode 1 (by decide)).trans h.initialization, (hnode 2 (by decide)).trans h.condition,
    (hnode 3 (by decide)).trans h.step, (hnode 4 (by decide)).trans h.update, (hnode 5 (by decide)).trans h.loop,
    (hparent 0 (by decide)).trans h.target_owner, (hparent 1 (by decide)).trans h.initialization_owner,
    (hparent 2 (by decide)).trans h.condition_owner, (hparent 3 (by decide)).trans h.step_owner,
    (hparent 4 (by decide)).trans h.update_owner⟩

/-- The nodes in a forest with a loop. -/
theorem node?_withLoop (f : Forest) (l : Loop) (body : List Token) (location : Location) (id : NodeId) :
    (f.withLoop l body location).node? id =
      if id = f.size + 5 then some (.forLoop (f.size + 1) (f.size + 2) (f.size + 4) body)
      else if id = f.size + 4 then some (.assignment (.raw l.update.target) (.node (f.size + 3)))
      else if id = f.size + 3 then some (.binary l.update.operator (.raw l.update.target) (.raw l.update.value))
      else if id = f.size + 2 then some (.loopCondition l.condition.left l.condition.comparator.value l.condition.right)
      else if id = f.size + 1 then some (.assignment (.node f.size) (.raw l.initialization.value))
      else if id = f.size then some (.var l.initialization.target.name l.initialization.target.type)
      else f.node? id := by
  simp only [withLoop, withClauses, withUpdate, withCondition, withInitialization, node?_withNode, size_withNode]

/-- Where the nodes of a loop that is added stand in the text. -/
theorem location?_withLoop (f : Forest) (l : Loop) (body : List Token) (location : Location) (id : NodeId) :
    (f.withLoop l body location).location? id =
      if id = f.size + 5 then some location
      else if id = f.size + 4 then some l.update.location
      else if id = f.size + 3 then some l.update.location
      else if id = f.size + 2 then some l.place
      else if id = f.size + 1 then some l.initialization.target.location
      else if id = f.size then some l.initialization.target.location
      else f.location? id := by
  simp only [withLoop, withClauses, withUpdate, withCondition, withInitialization, location?_withNode, size_withNode]

/-- The nodes of a loop that is built stand behind all others. -/
theorem holdsLoop_withLoop (hroot : root < f.size) (l : Loop) (body : List Token) (location : Location) :
    (f.withLoop l body location).HoldsLoop f.size l body where
  target := by simp [node?_withLoop]
  initialization := by simp [node?_withLoop]
  condition := by simp [node?_withLoop]
  step := by simp [node?_withLoop]
  update := by simp [node?_withLoop]
  loop := by simp [node?_withLoop]
  target_owner := by simp [parent?_withLoop hroot, parent?_withClauses hroot]
  initialization_owner := by simp [parent?_withLoop hroot]
  condition_owner := by simp [parent?_withLoop hroot]
  step_owner := by simp [parent?_withLoop hroot, parent?_withClauses hroot]
  update_owner := by simp [parent?_withLoop hroot]

/-- A node that is attached was owned by nothing, so it is none of those that a loop owns. -/
theorem HoldsLoop.link {first parent child : NodeId} {l : Loop} {body : List Token} (h : f.HoldsLoop first l body)
    (hchild : child < f.size) (hun : f.parent? child = none) : (f.link parent child).HoldsLoop first l body := by
  have howner : ∀ {id owner}, f.parent? id = some owner → (f.link parent child).parent? id = some owner := by
    intro id owner hid
    have hne : id ≠ child := by
      rintro rfl
      rw [hun] at hid
      cases hid
    rw [parent?_link hchild, if_neg hne, hid]
  exact ⟨(node?_link ..).trans h.target, (node?_link ..).trans h.initialization, (node?_link ..).trans h.condition,
    (node?_link ..).trans h.step, (node?_link ..).trans h.update, (node?_link ..).trans h.loop, howner h.target_owner,
    howner h.initialization_owner, howner h.condition_owner, howner h.step_owner, howner h.update_owner⟩

/-! ## What an addition brings -/

/-- Only a loop for the root gives a node a child. -/
theorem children_extend {a : Addition} (ha : ¬a.IsRootLoop) (id : NodeId) : (f.extend a).children id = f.children id := by
  cases a with
  | target t => exact children_withNode _ id
  | initialization i => exact (children_withNode _ id).trans (children_withNode _ id)
  | condition c place => exact children_withNode _ id
  | update u => exact (children_withNode _ id).trans (children_withNode _ id)
  | loop l body location => exact children_withLoop f l body location id
  | rootLoop l body location => exact absurd trivial ha

/-- The nodes of a loop that the root takes stand behind all others, too. -/
theorem holdsLoop_extend (hroot : root < f.size) (l : Loop) (body : List Token) (location : Location) :
    (f.extend (.rootLoop l body location)).HoldsLoop f.size l body := by
  have hholds := holdsLoop_withLoop hroot l body location
  exact hholds.link (lt_size_of_node? hholds.loop) (parent?_withLoop_new hroot l body location)

/-- All loops of the second forest are loops of the first one. -/
def BringsNoLoop (f g : Forest) : Prop := ∀ id node, g.node? id = some node → node.isForLoop → f.node? id = some node

namespace BringsNoLoop

variable {g h : Forest}

theorem refl (f : Forest) : f.BringsNoLoop f := fun _ _ hnode _ => hnode

theorem add (hfg : f.BringsNoLoop g) {node : Node} (hnode : node.isForLoop = false) (location : Location) :
    f.BringsNoLoop (g.withNode node location) := by
  intro id n hn hloop
  rw [node?_withNode] at hn
  split at hn
  · obtain rfl := Option.some.inj hn
    rw [hnode] at hloop
    cases hloop
  · exact hfg id n hn hloop

theorem withClauses (f : Forest) (l : Loop) : f.BringsNoLoop (f.withClauses l) :=
  ((((BringsNoLoop.refl f).add rfl _).add rfl _).add rfl _).add rfl _ |>.add rfl _

end BringsNoLoop

/-- Each loop is the last of its six nodes, which stand behind the root, and the root has loops for children and is their owner. No
other node has children. -/
structure Shaped (f : Forest) : Prop where
  program : f.node? root = some .program
  loops : ∀ id node, f.node? id = some node → node.isForLoop → ∃ first l body, root < first ∧ id = first + 5 ∧
    l.update.operator ∈ updateOperators ∧ f.HoldsLoop first l body
  children_root : ∀ c ∈ f.children root, (∃ node, f.node? c = some node ∧ node.isForLoop) ∧ f.parent? c = some root
  children_eq_nil : ∀ id ≠ root, f.children id = []

namespace Shaped

variable {g : Forest}

theorem root_lt_size (hf : f.Shaped) : root < f.size := lt_size_of_node? hf.program

theorem empty : Shaped empty := by
  refine ⟨rfl, fun id node hnode hloop => ?_, nofun, fun id hid => ?_⟩
  · obtain rfl : id = root := Nat.lt_one_iff.mp (lt_size_of_node? hnode)
    cases hnode
    cases hloop
  · have hnone : Forest.empty.get? id = none := (get?_eq_none_iff _ _).mpr (Nat.pos_of_ne_zero hid)
    rw [children, hnone]
    rfl

/-- The root's children stay loops that it owns. -/
theorem children_root_keep (hf : f.Shaped) (hfg : f.KeepsOwners g) (hchildren : g.children root = f.children root) :
    ∀ c ∈ g.children root, (∃ node, g.node? c = some node ∧ node.isForLoop) ∧ g.parent? c = some root := by
  intro c hc
  obtain ⟨⟨node, hnode, hloop⟩, hparent⟩ := hf.children_root c (hchildren ▸ hc)
  have hlt := lt_size_of_node? hnode
  exact ⟨⟨node, (hfg.node?_eq c hlt).trans hnode, hloop⟩, (hfg.parent?_eq c hlt).trans hparent⟩

/-- What brings no loop and no child keeps the shape. -/
theorem keep (hf : f.Shaped) (hfg : f.KeepsOwners g) (hno : f.BringsNoLoop g) (hchildren : ∀ id, g.children id = f.children id) :
    g.Shaped where
  program := (hfg.node?_eq root hf.root_lt_size).trans hf.program
  loops id node hnode hloop := by
    obtain ⟨first, l, body, hfirst, hid, hop, hholds⟩ := hf.loops id node (hno id node hnode hloop) hloop
    exact ⟨first, l, body, hfirst, hid, hop, hholds.keep hfg⟩
  children_root := hf.children_root_keep hfg (hchildren root)
  children_eq_nil id hid := (hchildren id).trans (hf.children_eq_nil id hid)

/-- A loop that is built stands behind its six nodes, and the older ones keep their shape. -/
theorem withLoop (hf : f.Shaped) {l : Loop} (body : List Token) (location : Location) (hop : l.update.operator ∈ updateOperators) :
    (f.withLoop l body location).Shaped where
  program := ((f.keeps_withLoop l body location).node?_eq root hf.root_lt_size).trans hf.program
  loops id node hnode hloop := by
    have hkeep := keepsOwners_withLoop hf.root_lt_size l body location
    rw [Forest.withLoop, node?_withNode, size_withClauses] at hnode
    split at hnode
    · next hid =>
      exact ⟨f.size, l, body, hf.root_lt_size, hid, hop, holdsLoop_withLoop hf.root_lt_size l body location⟩
    · have hold := BringsNoLoop.withClauses f l id node hnode hloop
      obtain ⟨first, l', body', hfirst, hid, hop', hholds⟩ := hf.loops id node hold hloop
      exact ⟨first, l', body', hfirst, hid, hop', hholds.keep hkeep⟩
  children_root :=
    hf.children_root_keep (keepsOwners_withLoop hf.root_lt_size l body location) (children_withLoop f l body location root)
  children_eq_nil id hid := (children_withLoop f l body location id).trans (hf.children_eq_nil id hid)

/-- The root may take a loop for a child that nothing owns. -/
theorem link (hf : f.Shaped) {loop : NodeId} {node : Node} (hnode : f.node? loop = some node) (hloop : node.isForLoop)
    (hun : f.parent? loop = none) : (f.link root loop).Shaped := by
  have hlt := lt_size_of_node? hnode
  refine ⟨(node?_link ..).trans hf.program, fun id n hn hn' => ?_, fun c hc => ?_, fun id hid => ?_⟩
  · rw [node?_link] at hn
    obtain ⟨first, l, body, hfirst, hid, hop, hholds⟩ := hf.loops id n hn hn'
    exact ⟨first, l, body, hfirst, hid, hop, hholds.link hlt hun⟩
  · rw [node?_link, parent?_link hlt]
    rw [children_link hf.root_lt_size, if_pos rfl] at hc
    rcases List.mem_append.mp hc with hc | hc
    · obtain ⟨hc', hparent⟩ := hf.children_root c hc
      refine ⟨hc', ?_⟩
      split
      · rfl
      · exact hparent
    · obtain rfl := List.mem_singleton.mp hc
      exact ⟨⟨node, hnode, hloop⟩, if_pos rfl⟩
  · rw [children_link hf.root_lt_size, if_neg hid]
    exact hf.children_eq_nil id hid

/-- Additions keep the shape. -/
theorem extend (hf : f.Shaped) {a : Addition} {tokens : List Token} (ha : a.Of tokens) : (f.extend a).Shaped := by
  have hroot := hf.root_lt_size
  have hkeep := keepsOwners_extend hroot a
  cases a with
  | target t => exact hf.keep hkeep ((BringsNoLoop.refl f).add rfl _) (children_extend not_false)
  | initialization i => exact hf.keep hkeep (((BringsNoLoop.refl f).add rfl _).add rfl _) (children_extend not_false)
  | condition c place => exact hf.keep hkeep ((BringsNoLoop.refl f).add rfl _) (children_extend not_false)
  | update u => exact hf.keep hkeep (((BringsNoLoop.refl f).add rfl _).add rfl _) (children_extend not_false)
  | loop l body location => exact hf.withLoop body location ha.2
  | rootLoop l body location =>
    have hloop := (holdsLoop_withLoop hroot l body location).loop
    exact (hf.withLoop body location ha.2).link hloop rfl (parent?_withLoop_new hroot l body location)

/-- In such a forest all children of the root are loops. -/
theorem forLoops_eq (hf : f.Shaped) : f.forLoops = f.children root :=
  List.filter_eq_self.mpr fun c hc => by
    obtain ⟨⟨node, hnode, hloop⟩, -⟩ := hf.children_root c hc
    rw [hnode]
    exact hloop

end Shaped

/-! ## Forests of loops alone -/

/-- There is the root with `count` loops for children, and no node but theirs. -/
structure Rows (f : Forest) (count : Nat) : Prop where
  size_eq : f.size = 1 + 6 * count
  children_root : f.children root = (List.range count).map fun i => 6 * (i + 1)
  attached : ∀ id node, f.node? id = some node → node.isForLoop → id ∈ f.children root

theorem rows_empty : Rows empty 0 := by
  refine ⟨rfl, rfl, fun id node hnode hloop => ?_⟩
  obtain ⟨first, l, body, hfirst, rfl, -⟩ := Shaped.empty.loops id node hnode hloop
  exact absurd (lt_size_of_node? hnode) (Nat.not_lt.mpr (Nat.le_add_left_of_le (by decide)))

/-- A loop for the root is one more. -/
theorem Rows.extend {count : Nat} (h : f.Rows count) (l : Loop) (body : List Token) (location : Location) :
    (f.extend (.rootLoop l body location)).Rows (count + 1) := by
  have hroot : root < f.size := by
    rw [h.size_eq, Nat.add_comm]
    exact Nat.succ_pos _
  have hchildren := children_root_extend hroot l body location
  refine ⟨?_, ?_, fun id node hnode hloop => ?_⟩
  · rw [Forest.extend, size_link, size_withLoop, h.size_eq]
    omega
  · have hlast : f.size + 5 = 6 * (count + 1) := by
      rw [h.size_eq]
      omega
    rw [hchildren, h.children_root, hlast, List.range_succ, List.map_append, List.map_singleton]
  · rw [Forest.extend, node?_link, Forest.withLoop, node?_withNode, size_withClauses] at hnode
    rw [hchildren]
    split at hnode
    · next hid => exact List.mem_append_right _ (List.mem_singleton.mpr hid)
    · exact List.mem_append_left _ (h.attached id node (BringsNoLoop.withClauses f l id node hnode hloop) hloop)

/-- Loops for the root, one after the other. -/
theorem Builds.exists_rows {φ : Addition → Prop} {g : Forest} (h : f.Builds φ g) (hφ : ∀ a, φ a → a.IsRootLoop) {count : Nat}
    (hf : f.Rows count) : ∃ count, g.Rows count := by
  refine h.keeps (P := fun g => ∃ count, g.Rows count) ⟨count, hf⟩ fun g a ha hg => ?_
  obtain ⟨count, hg⟩ := hg
  have hroot := hφ a ha
  cases a with
  | rootLoop l body location => exact ⟨count + 1, hg.extend l body location⟩
  | target | initialization | condition | update | loop => cases hroot

/-! ## The outline of a loop -/

section Outline

variable (hf : f.Linked) (hg : f.Grounded)

include hf hg

/-- A node without children renders as its header and what its fields hold. -/
theorem render_childless {id : NodeId} {node : Node} (hnode : f.node? id = some node) (hnil : f.children id = []) (level : Nat) :
    f.render id level = (indentation level ++ node.header) :: node.contents (fun l c => f.render c l) (level + 1) := by
  obtain ⟨e, he, rfl⟩ := Option.map_eq_some_iff.mp hnode
  have hchildren : e.children = [] := by
    rw [children, he] at hnil
    exact hnil
  rw [render_node hf hg he, hchildren, List.flatMap_nil, List.append_nil]

/-- A loop is shown in thirteen lines. -/
theorem HoldsLoop.length_render {first : NodeId} {l : Loop} {body : List Token} (h : f.HoldsLoop first l body)
    (hnil : ∀ i ≤ 5, f.children (first + i) = []) (level : Nat) : (f.render (first + 5) level).length = 13 := by
  have htarget := fun level => render_childless hf hg h.target (hnil 0 (by decide)) level
  have hinit := fun level => render_childless hf hg h.initialization (hnil 1 (by decide)) level
  have hcond := fun level => render_childless hf hg h.condition (hnil 2 (by decide)) level
  have hstep := fun level => render_childless hf hg h.step (hnil 3 (by decide)) level
  have hupdate := fun level => render_childless hf hg h.update (hnil 4 (by decide)) level
  rw [render_childless hf hg h.loop (hnil 5 (by decide))]
  simp [Node.contents, Operand.shownLines, htarget, hinit, hcond, hstep, hupdate]

/-- The root shows its own line and thirteen for each of its loops. -/
theorem Rows.length_render {count : Nat} (h : f.Rows count) (hs : f.Shaped) (level : Nat) :
    (f.render root level).length = 1 + 13 * count := by
  have hloop : ∀ c ∈ f.children root, (f.render c (level + 1)).length = 13 := fun c hc => by
    obtain ⟨⟨node, hnode, hloop⟩, -⟩ := hs.children_root c hc
    obtain ⟨first, l, body, hfirst, rfl, -, hholds⟩ := hs.loops c node hnode hloop
    have hnil : ∀ i ≤ 5, f.children (first + i) = [] := fun i _ =>
      hs.children_eq_nil _ (Nat.ne_of_gt (Nat.lt_of_lt_of_le hfirst (Nat.le_add_right _ _)))
    exact hholds.length_render hf hg hnil (level + 1)
  obtain ⟨e, he, hprogram⟩ := Option.map_eq_some_iff.mp hs.program
  have hchildren : f.children root = e.children := by
    rw [children, he]
    rfl
  have hlength : e.children.length = count := by rw [← hchildren, h.children_root, List.length_map, List.length_range]
  rw [hchildren] at hloop
  rw [render_node hf hg he, hprogram, Node.contents, List.nil_append, List.length_cons, List.length_flatMap,
    List.map_congr_left hloop, List.map_const', List.sum_replicate_nat, hlength]
  omega

end Outline

end Forest

namespace Parser

/-- Whatever its user does, the loops of a parser have their shape. -/
theorem Reached.shaped {p : Parser} (h : p.Reached) : p.forest.Shaped := by
  have key : p.Sound ∧ p.forest.Shaped :=
    h.induction (P := fun p => p.Sound ∧ p.forest.Shaped) (fun tokens => ⟨.ofTokens tokens, .empty⟩) fun p call hp =>
      ⟨hp.1.after call, (hp.1.builds_after call).2.keeps hp.2 fun _ _ ha hg => hg.extend ha⟩
  exact key.2

/-- In a parser that was only used to scan there are the root and the loops it owns. -/
theorem exists_rows_scans (tokens : List Token) {calls : List Call} (hscan : ∀ call ∈ calls, call.IsScan) :
    ∃ count, ((ofTokens tokens).run calls).forest.Rows count :=
  ((Sound.ofTokens tokens).builds_scans hscan).exists_rows (fun _ ha => ha.isRootLoop) Forest.rows_empty

/-- Whatever is called on a parser, every loop in its forest has number six or more and is the last of its six nodes, which stand one
behind the other and own each other as they should. Its update has one of the operators of updates, and its two operations on the same
name. The root's children are such loops and owned by it. When the parser was only used to scan, however the scans ended and with
whatever choices, the number of its loops says how many nodes there are, which of them are the root's children, and how many lines
the outline has. -/
theorem loops_shaped (tokens : List Token) (calls : List Call) :
    let f := ((ofTokens tokens).run calls).forest
    (∀ id node, f.node? id = some node → node.isForLoop → 6 ≤ id ∧ ∃ l body,
      l.update.operator ∈ ["+", "-", "*", "/", "%", "&", "|", "^"] ∧ f.HoldsLoop (id - 5) l body) ∧
    (∀ c ∈ f.children Forest.root, (∃ node, f.node? c = some node ∧ node.isForLoop) ∧ f.parent? c = some Forest.root) ∧
    ((∀ call ∈ calls, call.IsScan) → f.forLoops = f.children Forest.root ∧ f.size = 1 + 6 * f.forLoops.length ∧
      f.forLoops = (List.range f.forLoops.length).map (fun i => 6 * (i + 1)) ∧
      (f.render Forest.root 0).length = 1 + 13 * f.forLoops.length) := by
  intro f
  have hreached : ((ofTokens tokens).run calls).Reached := ⟨tokens, calls, rfl⟩
  have hshaped : f.Shaped := hreached.shaped
  refine ⟨fun id node hnode hloop => ?_, hshaped.children_root, fun hscan => ?_⟩
  · obtain ⟨first, l, body, hfirst, rfl, hop, hholds⟩ := hshaped.loops id node hnode hloop
    exact ⟨Nat.add_le_add_right (Nat.succ_le_of_lt hfirst) 5, l, body, hop, hholds⟩
  · obtain ⟨count, hrows⟩ := exists_rows_scans tokens hscan
    have hrows : f.Rows count := hrows
    have hloops : f.forLoops = f.children Forest.root := hshaped.forLoops_eq
    have hcount : f.forLoops.length = count := by rw [hloops, hrows.children_root, List.length_map, List.length_range]
    have hlength := hrows.length_render hreached.sound.reached.linked hreached.sound.reached.grounded hshaped 0
    rw [hcount]
    exact ⟨hloops, hrows.size_eq, hloops.trans hrows.children_root, hlength⟩

/-- The statement at a parser that stops at a loop without clauses, scans on with other choices and comes to a second loop. -/
theorem loops_shaped_secondLoop :
    let tokens : List Token := ["for", "(", ";", ";", ")", "\x7b", "\x7d", "for", "(", "j", "=", "0", ";", "j", "<", "2", ";", "j", "+=",
      "3", ")", "\x7b", "\x7d"].map fun text => ⟨.identifier, text, .start⟩
    let calls : List Call := [.parseProgram, .withOptions { matching := .lexical }, .parseProgram]
    let f := ((ofTokens tokens).run calls).forest
    (∀ call ∈ calls, call.IsScan) ∧ f.forLoops = [6] ∧ (∃ l body, f.HoldsLoop 1 l body ∧ l.update.operator = "+") ∧
      f.children Forest.root = f.forLoops ∧ f.size = 1 + 6 * f.forLoops.length ∧
      (f.render Forest.root 0).length = 1 + 13 * f.forLoops.length := by
  intro tokens calls f
  have hscan : ∀ call ∈ calls, call.IsScan := by simp [calls, Call.IsScan]
  have hloops : f.forLoops = [6] := by decide +kernel
  have hstep : f.node? 4 = some (.binary "+" (.raw "j") (.raw "3")) := by decide +kernel
  obtain ⟨hshape, hchildren, hrows⟩ := loops_shaped tokens calls
  obtain ⟨hroot, hsize, -, hlength⟩ := hrows hscan
  obtain ⟨⟨node, hnode, hloop⟩, -⟩ := hchildren 6 (hroot ▸ hloops ▸ List.mem_singleton.mpr rfl)
  obtain ⟨-, l, body, -, hholds⟩ := hshape 6 node hnode hloop
  have hop : l.update.operator = "+" := by
    have hbinary := hholds.step.symm.trans hstep
    simp only [Option.some.injEq, Node.binary.injEq] at hbinary
    exact hbinary.1
  exact ⟨hscan, hloops, ⟨l, body, hholds, hop⟩, hroot.symm, hsize, hlength⟩

end Parser

end LoopForest
