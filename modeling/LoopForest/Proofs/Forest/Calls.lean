import LoopForest.Forest.Basic

/-!
# Forests built by calls

A forest is built from the empty one by calls of `add`, `addChild` and `truncate`, in any order and with any arguments; a refused
call leaves it as it is. `Forest.run` makes the calls of a list one after the other, and `Reached` says a forest is what some list
of calls leaves.

For each call this file says once when it is accepted and what it leaves (`add_eq_ok_iff`, `addChild_eq_ok_iff`), and what that
means for the two views of a forest: upwards the owner of a node (`parent?`), downwards the nodes a node owns (`owned`), first those
of its fields and then its children. The other files on forests argue about these views and open no operation again.
-/

namespace LoopForest

/-- The nodes an entry owns: those its node refers to, and then the children attached to it. -/
def Entry.owned (e : Entry) : List NodeId := e.node.fieldIds ++ e.children

@[simp] theorem Entry.owned_fresh (node : Node) (location : Location) : (Entry.fresh node location).owned = node.fieldIds :=
  List.append_nil _

@[simp] theorem Entry.owned_ownedBy (e : Entry) (parent : NodeId) : (e.ownedBy parent).owned = e.owned := rfl

@[simp] theorem Entry.owned_withChild (e : Entry) (child : NodeId) : (e.withChild child).owned = e.owned ++ [child] :=
  (List.append_assoc _ _ _).symm

namespace Forest

/-! ## Calls -/

/-- A call that may change a forest. -/
inductive Call where
  | add (node : Node) (location : Location)
  | addChild (parent child : NodeId)
  | truncate (count : Nat)
  deriving DecidableEq, Repr

/-- The forest a call leaves. A refused call leaves the forest it was made on. -/
def after (f : Forest) : Call → Forest
  | .add node location =>
    match f.add node location with
    | .ok (_, g) => g
    | .error _ => f
  | .addChild parent child =>
    match f.addChild parent child with
    | .ok g => g
    | .error _ => f
  | .truncate count => f.truncate count

/-- The forest some calls leave, made one after the other. -/
def run (f : Forest) (calls : List Call) : Forest := calls.foldl after f

/-- The forest is what some calls make of the empty one. -/
def Reached (f : Forest) : Prop := ∃ calls, f = empty.run calls

@[simp] theorem run_nil (f : Forest) : f.run [] = f := rfl

@[simp] theorem run_cons (f : Forest) (call : Call) (calls : List Call) : f.run (call :: calls) = (f.after call).run calls := rfl

theorem run_append (f : Forest) (calls more : List Call) : f.run (calls ++ more) = (f.run calls).run more :=
  List.foldl_append

/-- What holds of the empty forest and is kept by every call holds of every forest that calls build. -/
theorem Reached.induction {P : Forest → Prop} (base : P empty) (step : ∀ f call, P f → P (f.after call)) {f : Forest}
    (h : f.Reached) : P f := by
  obtain ⟨calls, rfl⟩ := h
  have key : ∀ f, P f → P (f.run calls) := by
    induction calls with
    | nil => intro f hf; exact hf
    | cons call calls ih => intro f hf; exact ih _ (step f call hf)
  exact key empty base

theorem Reached.run {f : Forest} (h : f.Reached) (calls : List Call) : (f.run calls).Reached := by
  obtain ⟨before, rfl⟩ := h
  exact ⟨before ++ calls, (run_append empty before calls).symm⟩

/-! ## The two views -/

/-- The nodes a node owns, first those of its fields; none for a number not given out. -/
def owned (f : Forest) (id : NodeId) : List NodeId := ((f.get? id).map Entry.owned).getD []

theorem owned_of_get? {f : Forest} {id : NodeId} {e : Entry} (h : f.get? id = some e) : f.owned id = e.owned := by
  simp [owned, h]

/-- The children of a node come last among what it owns. -/
theorem children_sublist_owned (f : Forest) (id : NodeId) : (f.children id).Sublist (f.owned id) := by
  unfold children owned
  cases f.get? id with
  | none => exact List.Sublist.refl []
  | some e => exact List.sublist_append_right e.node.fieldIds e.children

theorem parent?_of_get? {f : Forest} {id : NodeId} {e : Entry} (h : f.get? id = some e) : f.parent? id = e.parent := by
  simp [parent?, h]

theorem node?_of_get? {f : Forest} {id : NodeId} {e : Entry} (h : f.get? id = some e) : f.node? id = some e.node := by
  simp [node?, h]

theorem exists_get? {f : Forest} {id : NodeId} (h : id < f.size) : ∃ e, f.get? id = some e :=
  ⟨f.entries[id], Array.getElem?_eq_getElem h⟩

theorem lt_size_of_get? {f : Forest} {id : NodeId} {e : Entry} (h : f.get? id = some e) : id < f.size :=
  (Array.getElem?_eq_some_iff.mp h).1

/-- A number not given out has no owner. -/
theorem parent?_eq_none_of_le {f : Forest} {id : NodeId} (h : f.size ≤ id) : f.parent? id = none := by
  simp [parent?, (get?_eq_none_iff f id).mpr h]

/-- A number not given out has no children. -/
theorem children_eq_nil_of_le {f : Forest} {id : NodeId} (h : f.size ≤ id) : f.children id = [] := by
  simp [children, (get?_eq_none_iff f id).mpr h]

/-- Only nodes that exist have an owner. -/
theorem lt_size_of_parent? {f : Forest} {id parent : NodeId} (h : f.parent? id = some parent) : id < f.size := by
  rcases Nat.lt_or_ge id f.size with hlt | hge
  · exact hlt
  · rw [parent?_eq_none_of_le hge] at h
    cases h

/-- Forests that keep the same of every number are the same. -/
theorem ext_get? {f g : Forest} (h : ∀ id, f.get? id = g.get? id) : f = g := by
  obtain ⟨entries⟩ := f
  obtain ⟨entries'⟩ := g
  have : entries = entries' := Array.ext_getElem? h
  rw [this]

/-! ## Adding a node -/

/-- The nodes of `claims` can be taken over: all exist, none is the root, none is owned, and none is named twice. -/
structure Claimable (f : Forest) (claims : List NodeId) : Prop where
  nodup : claims.Nodup
  lt_size : ∀ c ∈ claims, c < f.size
  ne_root : ∀ c ∈ claims, c ≠ root
  unowned : ∀ c ∈ claims, f.parent? c = none

/-- The first of some claims gives no reason to refuse, and the others give none when that one is taken over already. -/
theorem refusal?_cons_eq_none_iff (f : Forest) (owner child : NodeId) (earlier claims : List NodeId) :
    f.refusal? owner earlier (child :: claims) = none ↔
      (child < f.size ∧ child ≠ root ∧ f.parent? child = none ∧ child ∉ earlier) ∧
        f.refusal? owner (child :: earlier) claims = none := by
  rw [refusal?]
  cases he : f.get? child with
  | none =>
    have hlt : ¬child < f.size := Nat.not_lt.mpr ((get?_eq_none_iff f child).mp he)
    simp [hlt]
  | some e =>
    have hlt := lt_size_of_get? he
    have hparent := parent?_of_get? he
    by_cases hroot : child = root
    · simp [hroot]
    · cases ho : e.parent with
      | some owner' => simp [hroot, hparent, ho]
      | none => by_cases hm : child ∈ earlier <;> simp [hroot, hparent, ho, hm, hlt]

/-- There is no reason to refuse exactly the claims that can be taken over and are not taken over already. -/
theorem refusal?_eq_none_iff (f : Forest) (owner : NodeId) (earlier claims : List NodeId) :
    f.refusal? owner earlier claims = none ↔ f.Claimable claims ∧ ∀ c ∈ claims, c ∉ earlier := by
  induction claims generalizing earlier with
  | nil => exact ⟨fun _ => ⟨⟨List.nodup_nil, nofun, nofun, nofun⟩, nofun⟩, fun _ => rfl⟩
  | cons child claims ih =>
    rw [refusal?_cons_eq_none_iff, ih]
    constructor
    · rintro ⟨⟨hlt, hroot, hun, hearlier⟩, hc, hnew⟩
      have hchild : child ∉ claims := fun hm => hnew child hm List.mem_cons_self
      refine ⟨⟨List.nodup_cons.mpr ⟨hchild, hc.nodup⟩, ?_, ?_, ?_⟩, ?_⟩
      · exact List.forall_mem_cons.mpr ⟨hlt, hc.lt_size⟩
      · exact List.forall_mem_cons.mpr ⟨hroot, hc.ne_root⟩
      · exact List.forall_mem_cons.mpr ⟨hun, hc.unowned⟩
      · exact List.forall_mem_cons.mpr ⟨hearlier, fun c hm hc' => hnew c hm (List.mem_cons_of_mem _ hc')⟩
    · rintro ⟨hc, hnew⟩
      obtain ⟨hlt, hlt'⟩ := List.forall_mem_cons.mp hc.lt_size
      obtain ⟨hroot, hroot'⟩ := List.forall_mem_cons.mp hc.ne_root
      obtain ⟨hun, hun'⟩ := List.forall_mem_cons.mp hc.unowned
      obtain ⟨hearlier, hearlier'⟩ := List.forall_mem_cons.mp hnew
      obtain ⟨hchild, hnodup⟩ := List.nodup_cons.mp hc.nodup
      refine ⟨⟨hlt, hroot, hun, hearlier⟩, ⟨hnodup, hlt', hroot', hun'⟩, ?_⟩
      intro c hm hc'
      rcases List.mem_cons.mp hc' with rfl | hc'
      · exact hchild hm
      · exact hearlier' c hm hc'

/-- The forest with `node` behind the other nodes, as the owner of those it refers to. -/
def withNode (f : Forest) (node : Node) (location : Location) : Forest := (f.own f.size node.fieldIds).push node location

@[simp] theorem size_withNode (f : Forest) (node : Node) (location : Location) : (f.withNode node location).size = f.size + 1 := by
  rw [withNode, size_push, size_own]

/-- A node is added exactly when the nodes it refers to can be taken over. It gets the next number and takes them over. -/
theorem add_eq_ok_iff {f g : Forest} {node : Node} {location : Location} {id : NodeId} :
    f.add node location = .ok (id, g) ↔ f.Claimable node.fieldIds ∧ id = f.size ∧ g = f.withNode node location := by
  have hiff := refusal?_eq_none_iff f f.size [] node.fieldIds
  unfold add
  cases hr : f.refusal? f.size [] node.fieldIds with
  | none =>
    have hc := (hiff.mp hr).1
    simp [hc, withNode, eq_comm]
  | some e =>
    have hc : ¬f.Claimable node.fieldIds := by
      intro hc
      have := hiff.mpr ⟨hc, fun _ _ => List.not_mem_nil⟩
      rw [hr] at this
      cases this
    simp [hc]

section Add

variable {f : Forest} {node : Node} (location : Location)

/-- What is kept of a number once a node is added. -/
theorem get?_withNode (id : NodeId) :
    (f.withNode node location).get? id =
      if id = f.size then some (.fresh node location)
      else (f.get? id).map fun e => if id ∈ node.fieldIds then e.ownedBy f.size else e := by
  rw [withNode, get?_push, size_own, get?_own]

/-- Adding a node changes nothing of a node it does not refer to. -/
theorem get?_withNode_of_lt {id : NodeId} (hid : id < f.size) (hold : id ∉ node.fieldIds) :
    (f.withNode node location).get? id = f.get? id := by
  rw [get?_withNode, if_neg (Nat.ne_of_lt hid)]
  simp only [if_neg hold, Option.map_id']

/-- Adding a node makes it the owner of the nodes it refers to and changes no other owner. -/
theorem parent?_withNode (h : f.Claimable node.fieldIds) (id : NodeId) :
    (f.withNode node location).parent? id = if id ∈ node.fieldIds then some f.size else f.parent? id := by
  rw [parent?, get?_withNode]
  by_cases hid : id = f.size
  · have hm : id ∉ node.fieldIds := fun hm => Nat.ne_of_lt (h.lt_size id hm) hid
    rw [if_pos hid, if_neg hm, parent?_eq_none_of_le (Nat.le_of_eq hid.symm)]
    rfl
  · rw [if_neg hid]
    cases he : f.get? id with
    | none =>
      have hm : id ∉ node.fieldIds := fun hm => Nat.not_lt.mpr ((get?_eq_none_iff f id).mp he) (h.lt_size id hm)
      simp [parent?, he, hm]
    | some e => by_cases hm : id ∈ node.fieldIds <;> simp [parent?, he, hm, Entry.ownedBy]

/-- No added node takes over the root. -/
theorem parent?_root_withNode (h : f.Claimable node.fieldIds) : (f.withNode node location).parent? root = f.parent? root := by
  have hm : root ∉ node.fieldIds := fun hm => h.ne_root root hm rfl
  rw [parent?_withNode location h, if_neg hm]

/-- Adding a node changes no other node. -/
theorem node?_withNode (id : NodeId) :
    (f.withNode node location).node? id = if id = f.size then some node else f.node? id := by
  rw [node?, get?_withNode]
  by_cases hid : id = f.size
  · simp [hid, Entry.fresh]
  · rw [if_neg hid, if_neg hid, node?]
    cases f.get? id with
    | none => rfl
    | some e => by_cases hm : id ∈ node.fieldIds <;> simp [hm, Entry.ownedBy]

/-- Adding a node moves no other node. -/
theorem location?_withNode (id : NodeId) :
    (f.withNode node location).location? id = if id = f.size then some location else f.location? id := by
  rw [location?, get?_withNode]
  by_cases hid : id = f.size
  · simp [hid, Entry.fresh]
  · rw [if_neg hid, if_neg hid, location?]
    cases f.get? id with
    | none => rfl
    | some e => by_cases hm : id ∈ node.fieldIds <;> simp [hm, Entry.ownedBy]

/-- A node that is added has no children, and the others keep theirs. -/
theorem children_withNode (id : NodeId) : (f.withNode node location).children id = f.children id := by
  rw [children, get?_withNode, children]
  by_cases hid : id = f.size
  · have hnone : f.get? id = none := (get?_eq_none_iff f id).mpr (Nat.le_of_eq hid.symm)
    rw [if_pos hid, hnone]
    rfl
  · rw [if_neg hid]
    cases f.get? id with
    | none => rfl
    | some e => by_cases hm : id ∈ node.fieldIds <;> simp [hm, Entry.ownedBy]

/-- Adding a node changes what no other node owns. -/
theorem owned_withNode (id : NodeId) :
    (f.withNode node location).owned id = if id = f.size then node.fieldIds else f.owned id := by
  rw [owned, get?_withNode]
  by_cases hid : id = f.size
  · simp [hid]
  · rw [if_neg hid, if_neg hid, owned]
    cases f.get? id with
    | none => rfl
    | some e => by_cases hm : id ∈ node.fieldIds <;> simp [hm]

end Add

/-! ## Attaching a child -/

/-- The forest with `child` attached behind the other children of `parent`. -/
def link (f : Forest) (parent child : NodeId) : Forest :=
  ⟨(f.entries.modify child (·.ownedBy parent)).modify parent (·.withChild child)⟩

/-- A child is attached exactly when both nodes exist, the child is not owned, and it is not the parent or a node above it. -/
theorem addChild_eq_ok_iff {f g : Forest} {parent child : NodeId} :
    f.addChild parent child = .ok g ↔
      parent < f.size ∧ child < f.size ∧ f.parent? child = none ∧ child ∉ f.ancestors parent ∧ g = f.link parent child := by
  unfold addChild
  by_cases hp : f.size ≤ parent
  · have : ¬parent < f.size := Nat.not_lt.mpr hp
    simp [hp, this]
  · rw [if_neg hp]
    have hp' : parent < f.size := Nat.lt_of_not_le hp
    cases he : f.get? child with
    | none =>
      have : ¬child < f.size := Nat.not_lt.mpr ((get?_eq_none_iff f child).mp he)
      simp [this]
    | some e =>
      have hc := lt_size_of_get? he
      have hparent := parent?_of_get? he
      cases ho : e.parent with
      | some owner => simp [hparent, ho]
      | none => by_cases hm : child ∈ f.ancestors parent <;> simp [hp', hc, hparent, ho, hm, link, eq_comm]

@[simp] theorem size_link (f : Forest) (parent child : NodeId) : (f.link parent child).size = f.size := by
  simp [link, size]

/-- What is kept of a number once a child is attached. -/
theorem get?_link (f : Forest) (parent child id : NodeId) :
    (f.link parent child).get? id = ((f.get? id).map fun e => if child = id then e.ownedBy parent else e).map
      fun e => if parent = id then e.withChild child else e := by
  unfold link get?
  simp only [Array.getElem?_modify]
  by_cases h : parent = id <;> by_cases h' : child = id <;> cases f.entries[id]? <;> simp [h, h']

/-- Attaching a child gives it an owner and changes no other owner. -/
theorem parent?_link {f : Forest} {parent child : NodeId} (h : child < f.size) (id : NodeId) :
    (f.link parent child).parent? id = if id = child then some parent else f.parent? id := by
  rw [parent?, get?_link]
  by_cases hid : id = child
  · subst hid
    obtain ⟨e, he⟩ := exists_get? h
    by_cases hp : parent = id <;> simp [he, hp, Entry.ownedBy, Entry.withChild]
  · have hid' : ¬child = id := fun h => hid h.symm
    rw [if_neg hid, parent?]
    cases f.get? id with
    | none => rfl
    | some e => by_cases hp : parent = id <;> simp [hp, hid', Entry.withChild]

@[simp] theorem node?_link (f : Forest) (parent child id : NodeId) : (f.link parent child).node? id = f.node? id := by
  rw [node?, get?_link, node?]
  cases f.get? id with
  | none => rfl
  | some e => by_cases hp : parent = id <;> by_cases hc : child = id <;> simp [hp, hc, Entry.ownedBy, Entry.withChild]

@[simp] theorem location?_link (f : Forest) (parent child id : NodeId) :
    (f.link parent child).location? id = f.location? id := by
  rw [location?, get?_link, location?]
  cases f.get? id with
  | none => rfl
  | some e => by_cases hp : parent = id <;> by_cases hc : child = id <;> simp [hp, hc, Entry.ownedBy, Entry.withChild]

/-- Attaching a child puts it behind the other children of its parent, and no other node gets or loses one. -/
theorem children_link {f : Forest} {parent child : NodeId} (h : parent < f.size) (id : NodeId) :
    (f.link parent child).children id = if id = parent then f.children id ++ [child] else f.children id := by
  rw [children, get?_link, children]
  by_cases hid : id = parent
  · subst hid
    obtain ⟨e, he⟩ := exists_get? h
    by_cases hc : child = id <;> simp [he, hc, Entry.ownedBy, Entry.withChild]
  · have hid' : ¬parent = id := fun h => hid h.symm
    rw [if_neg hid]
    cases f.get? id with
    | none => rfl
    | some e => by_cases hc : child = id <;> simp [hc, hid', Entry.ownedBy]

/-- Attaching a child puts it behind what its parent owns and changes what no other node owns. -/
theorem owned_link {f : Forest} {parent child : NodeId} (h : parent < f.size) (id : NodeId) :
    (f.link parent child).owned id = if id = parent then f.owned id ++ [child] else f.owned id := by
  rw [owned, get?_link, owned]
  by_cases hid : id = parent
  · subst hid
    obtain ⟨e, he⟩ := exists_get? h
    by_cases hc : child = id <;> simp [he, hc]
  · have hid' : ¬parent = id := fun h => hid h.symm
    rw [if_neg hid]
    cases f.get? id with
    | none => rfl
    | some e => by_cases hc : child = id <;> simp [hc, hid']

/-! ## Forgetting the newest nodes -/

/-- The owners left once nodes are forgotten. -/
theorem parent?_truncate (f : Forest) (count : Nat) (id : NodeId) :
    (f.truncate count).parent? id = if id < max count 1 then (f.parent? id).filter (· < max count 1) else none := by
  rw [parent?, get?_truncate, parent?]
  by_cases h : id < max count 1
  · rw [if_pos h, if_pos h]
    cases f.get? id <;> rfl
  · rw [if_neg h, if_neg h]
    rfl

/-- The nodes left once nodes are forgotten. -/
theorem node?_truncate (f : Forest) (count : Nat) (id : NodeId) :
    (f.truncate count).node? id = if id < max count 1 then f.node? id else none := by
  rw [node?, get?_truncate, node?]
  by_cases h : id < max count 1
  · rw [if_pos h, if_pos h]
    cases f.get? id <;> rfl
  · rw [if_neg h, if_neg h]
    rfl

/-! ## What a call leaves -/

/-- A call leaves the forest as it is, adds a node, attaches a child, or forgets nodes. -/
theorem after_cases (f : Forest) (call : Call) :
    f.after call = f ∨
      (∃ node location, call = .add node location ∧ f.Claimable node.fieldIds ∧
        f.after call = f.withNode node location) ∨
      (∃ parent child, call = .addChild parent child ∧ parent < f.size ∧ child < f.size ∧ f.parent? child = none ∧
        child ∉ f.ancestors parent ∧ f.after call = f.link parent child) ∨
      ∃ count, call = .truncate count ∧ f.after call = f.truncate count := by
  cases call with
  | add node location =>
    cases h : f.add node location with
    | error e => exact Or.inl (by simp only [after, h])
    | ok r =>
      obtain ⟨hc, -, hg⟩ := add_eq_ok_iff.mp h
      exact Or.inr (Or.inl ⟨node, location, rfl, hc, by simp only [after, h, hg]⟩)
  | addChild parent child =>
    cases h : f.addChild parent child with
    | error e => exact Or.inl (by simp only [after, h])
    | ok g =>
      obtain ⟨hp, hc, hun, hm, hg⟩ := addChild_eq_ok_iff.mp h
      exact Or.inr (Or.inr (Or.inl ⟨parent, child, rfl, hp, hc, hun, hm, by simp only [after, h, hg]⟩))
  | truncate count => exact Or.inr (Or.inr (Or.inr ⟨count, rfl, rfl⟩))

/-- Whatever is forgotten, the root is not. -/
theorem root_lt_max (count : Nat) : root < max count 1 :=
  Nat.lt_of_lt_of_le Nat.one_pos (Nat.le_max_right _ _)

theorem root_lt_size_after {f : Forest} (h : root < f.size) (call : Call) : root < (f.after call).size := by
  rcases after_cases f call with hg | ⟨node, location, -, -, hg⟩ | ⟨parent, child, -, -, -, -, -, hg⟩ | ⟨count, -, hg⟩
  · rw [hg]; exact h
  · rw [hg, size_withNode]; exact Nat.lt_succ_of_lt h
  · rw [hg, size_link]; exact h
  · rw [hg, size_truncate]; exact Nat.lt_min.mpr ⟨root_lt_max count, h⟩

theorem Reached.root_lt_size {f : Forest} (h : f.Reached) : root < f.size :=
  Reached.induction (P := fun f => root < f.size) Nat.one_pos (fun _ call hf => root_lt_size_after hf call) h

end Forest

end LoopForest
