import LoopForest.Proofs.Forest.Lineage
import Mathlib.Logic.Function.Basic
import Mathlib.Logic.Relation

/-!
# When links are refused, and that a refused one leaves no trace

`Forest.add` and `Forest.addChild` answer a new forest or the reason of a refusal. This file says of every forest that calls build which
of the two they answer. A node is added when the nodes it refers to can be taken over, and is refused for the first one that cannot
(`FirstOffence`, `refusal?_eq_some_iff`). A child without an owner is attached when its new owner closes no circle, where a circle is
what it is in the map of owners, with no walk (`Circular`, `circular_iff_mem_ancestors`): the walk upwards from the parent meets the
child just when the owners would run in a circle once the child is attached.

An answer that is a refusal says nothing about the forest it was made on. So that there is something to say, `Edit.add` and
`Edit.addChild` make the same changes in place: they check one claim after the other and write one entry after the other, and a refusal
leaves the forest as it is when it comes. They end with what the answers say (`Edit.add_apply`, `Edit.addChild_apply`), and in
particular no check comes behind a write.
-/

namespace LoopForest

namespace Forest

/-! ## Changes in place -/

/-- A change of a forest in place. It ends with an answer or with a refusal, and with the forest as it is by then. -/
abbrev Edit := EStateM LinkError Forest

namespace Edit

/-- Makes sure that the node of number `owner` can take over `claims`, when those in `earlier` are claimed already. -/
def checkClaims (owner : NodeId) (earlier : List NodeId) : List NodeId → Edit Unit
  | [] => pure ()
  | child :: claims => do
    match (← get).get? child with
    | none => throw (.unknown child)
    | some e =>
      if child = root then throw (.cycle child owner)
      if let some parent := e.parent then throw (.attached child parent)
      if child ∈ earlier then throw (.attached child owner)
      checkClaims owner (child :: earlier) claims

/-- Makes `owner` the owner of the nodes of `claims`, one after the other. -/
def takeOver (owner : NodeId) : List NodeId → Edit Unit
  | [] => pure ()
  | child :: claims => do
    modify fun f => ⟨f.entries.modify child (·.ownedBy owner)⟩
    takeOver owner claims

/-- Adds a node in place and answers its number. -/
def add (node : Node) (location : Location) : Edit NodeId := do
  let id := (← get).size
  checkClaims id [] node.fieldIds
  takeOver id node.fieldIds
  modify (·.push node location)
  return id

/-- Attaches a child in place. -/
def addChild (parent child : NodeId) : Edit Unit := do
  let f ← get
  if f.size ≤ parent then throw (.unknown parent)
  match f.get? child with
  | none => throw (.unknown child)
  | some e =>
    if let some owner := e.parent then throw (.attached child owner)
    if child ∈ f.ancestors parent then throw (.cycle child parent)
    modify fun f => ⟨f.entries.modify child (·.ownedBy parent)⟩
    modify fun f => ⟨f.entries.modify parent (·.withChild child)⟩

section Bind

variable {α β : Type} {k : α → Edit β} {f g : Forest}

theorem bind_of_ok {x : Edit α} {a : α} (h : x f = .ok a g) : (x >>= k) f = k a g := by
  simp only [bind, EStateM.bind, h]

theorem bind_of_error {x : Edit α} {e : LinkError} (h : x f = .error e g) : (x >>= k) f = .error e g := by
  simp only [bind, EStateM.bind, h]

theorem throw_bind (e : LinkError) : ((throw e : Edit α) >>= k) f = .error e f := bind_of_error rfl

theorem get_bind {k : Forest → Edit β} : (get >>= k) f = k f f := bind_of_ok rfl

end Bind

/-- The claims are checked as `refusal?` looks through them, and the forest stays as it is. -/
theorem checkClaims_apply (owner : NodeId) (earlier claims : List NodeId) (f : Forest) :
    checkClaims owner earlier claims f =
      match f.refusal? owner earlier claims with
      | none => .ok () f
      | some e => .error e f := by
  induction claims generalizing earlier with
  | nil => rfl
  | cons child claims ih =>
    rw [refusal?, checkClaims, get_bind]
    cases f.get? child with
    | none => rfl
    | some e =>
      by_cases hroot : child = root
      · simp only [hroot, if_pos, throw_bind]
      · cases ho : e.parent with
        | some parent => simp only [if_neg hroot, ho, throw_bind]
        | none =>
          by_cases hm : child ∈ earlier
          · simp only [if_neg hroot, if_pos hm, ho, throw_bind]
          · simp only [if_neg hroot, if_neg hm, ho, ih]

theorem takeOver_apply (owner : NodeId) (claims : List NodeId) (f : Forest) : takeOver owner claims f = .ok () (f.own owner claims) := by
  induction claims generalizing f with
  | nil => rfl
  | cons child claims ih => exact ih _

/-- Adding a node in place ends with the forest that is answered when the node is added, and with the forest of before when it is not. -/
theorem add_apply (node : Node) (location : Location) (f : Forest) :
    add node location f =
      match f.add node location with
      | .ok (id, g) => .ok id g
      | .error e => .error e f := by
  have hcheck := checkClaims_apply f.size [] node.fieldIds f
  unfold add Forest.add
  rw [get_bind]
  cases hr : f.refusal? f.size [] node.fieldIds with
  | none =>
    rw [hr] at hcheck
    rw [bind_of_ok hcheck, bind_of_ok (takeOver_apply f.size node.fieldIds f)]
    rfl
  | some e =>
    rw [hr] at hcheck
    exact bind_of_error hcheck

/-- Attaching a child in place ends with the forest that is answered when the child is attached, and with the forest of before when it is
not. -/
theorem addChild_apply (parent child : NodeId) (f : Forest) :
    addChild parent child f =
      match f.addChild parent child with
      | .ok g => .ok () g
      | .error e => .error e f := by
  unfold addChild Forest.addChild
  rw [get_bind]
  by_cases hp : f.size ≤ parent
  · simp only [if_pos hp, throw_bind]
  · rw [if_neg hp, if_neg hp]
    cases f.get? child with
    | none => rfl
    | some e =>
      cases ho : e.parent with
      | some owner => simp only [ho, throw_bind]
      | none =>
        by_cases hm : child ∈ f.ancestors parent
        · simp only [if_pos hm, throw_bind, ho]
        · simp only [if_neg hm, ho]
          rfl

end Edit

/-! ## The first claim that offends -/

/-- What is wrong with a claim of `child` by a new node, when the nodes in `earlier` are claimed already. Of several faults the first one
in this order is reported: the node does not exist, it is the root, it is owned, it is claimed before. -/
inductive Offence (f : Forest) (earlier : List NodeId) (child : NodeId) : LinkError → Prop where
  | unknown (h : f.size ≤ child) : Offence f earlier child (.unknown child)
  | root (hlt : child < f.size) (h : child = root) : Offence f earlier child (.cycle child f.size)
  | owned {parent : NodeId} (hroot : child ≠ Forest.root) (h : f.parent? child = some parent) :
    Offence f earlier child (.attached child parent)
  | repeated (hlt : child < f.size) (hroot : child ≠ Forest.root) (hun : f.parent? child = none) (h : child ∈ earlier) :
    Offence f earlier child (.attached child f.size)

/-- The report is about the first of the claims that cannot be taken over: those before it can. -/
def FirstOffence (f : Forest) (claims : List NodeId) (e : LinkError) : Prop :=
  ∃ before child after, claims = before ++ child :: after ∧ f.Claimable before ∧ f.Offence before child e

theorem Offence.congr {f : Forest} {earlier earlier' : List NodeId} {child : NodeId} {e : LinkError} (h : f.Offence earlier child e)
    (hmem : child ∈ earlier → child ∈ earlier') : f.Offence earlier' child e := by
  cases h with
  | unknown h => exact .unknown h
  | root hlt h => exact .root hlt h
  | owned hroot h => exact .owned hroot h
  | repeated hlt hroot hun h => exact .repeated hlt hroot hun (hmem h)

/-- Either the first claim offends, or it can be taken over and a later one does. -/
theorem refusal?_cons_eq_some_iff (f : Forest) (earlier : List NodeId) (child : NodeId) (claims : List NodeId) (error : LinkError) :
    f.refusal? f.size earlier (child :: claims) = some error ↔
      f.Offence earlier child error ∨
        (child < f.size ∧ child ≠ root ∧ f.parent? child = none ∧ child ∉ earlier) ∧
          f.refusal? f.size (child :: earlier) claims = some error := by
  constructor
  · intro h
    rw [refusal?] at h
    cases he : f.get? child with
    | none =>
      simp only [he, Option.some.injEq] at h
      exact h ▸ Or.inl (.unknown ((get?_eq_none_iff f child).mp he))
    | some e =>
      have hlt := lt_size_of_get? he
      have hparent := parent?_of_get? he
      by_cases hroot : child = root
      · simp only [he, if_pos hroot, Option.some.injEq] at h
        exact h ▸ Or.inl (.root hlt hroot)
      · cases ho : e.parent with
        | some parent =>
          simp only [he, if_neg hroot, ho, Option.some.injEq] at h
          exact h ▸ Or.inl (.owned hroot (hparent.trans ho))
        | none =>
          by_cases hm : child ∈ earlier
          · simp only [he, if_neg hroot, ho, if_pos hm, Option.some.injEq] at h
            exact h ▸ Or.inl (.repeated hlt hroot (hparent.trans ho) hm)
          · simp only [he, if_neg hroot, ho, if_neg hm] at h
            exact Or.inr ⟨⟨hlt, hroot, hparent.trans ho, hm⟩, h⟩
  · rintro (h | ⟨⟨hlt, hroot, hun, hm⟩, h⟩)
    · rw [refusal?]
      cases h with
      | unknown h => simp only [(get?_eq_none_iff f child).mpr h]
      | root hlt h =>
        obtain ⟨e, he⟩ := exists_get? hlt
        simp only [he, if_pos h]
      | owned hroot h =>
        obtain ⟨e, he⟩ := exists_get? (lt_size_of_parent? h)
        simp only [he, if_neg hroot, (parent?_of_get? he).symm.trans h]
      | repeated hlt hroot hun h =>
        obtain ⟨e, he⟩ := exists_get? hlt
        simp only [he, if_neg hroot, (parent?_of_get? he).symm.trans hun, if_pos h]
    · obtain ⟨e, he⟩ := exists_get? hlt
      simp only [refusal?, he, if_neg hroot, (parent?_of_get? he).symm.trans hun, if_neg hm, h]

/-- A node is refused for a claim that offends behind claims that do not. -/
theorem refusal?_eq_some_iff (f : Forest) (earlier claims : List NodeId) (error : LinkError) :
    f.refusal? f.size earlier claims = some error ↔
      ∃ before child after, claims = before ++ child :: after ∧ f.refusal? f.size earlier before = none ∧
        f.Offence (before.reverse ++ earlier) child error := by
  induction claims generalizing earlier with
  | nil => simp [refusal?]
  | cons first claims ih =>
    rw [refusal?_cons_eq_some_iff, ih]
    constructor
    · rintro (h | ⟨hfirst, before, child, after, rfl, hnone, h⟩)
      · exact ⟨[], first, claims, rfl, rfl, h⟩
      · refine ⟨first :: before, child, after, rfl, ?_, ?_⟩
        · exact (refusal?_cons_eq_none_iff f f.size first earlier before).mpr ⟨hfirst, hnone⟩
        · simpa using h
    · rintro ⟨before, child, after, heq, hnone, h⟩
      cases before with
      | nil =>
        obtain ⟨rfl, rfl⟩ := List.cons.inj heq
        exact Or.inl h
      | cons _ before =>
        obtain ⟨rfl, rfl⟩ := List.cons.inj heq
        obtain ⟨hfirst, hnone⟩ := (refusal?_cons_eq_none_iff f f.size first earlier before).mp hnone
        exact Or.inr ⟨hfirst, before, child, after, rfl, hnone, by simpa using h⟩

/-- A node is refused with the report of the first claim that cannot be taken over. -/
theorem add_eq_error_iff {f : Forest} {node : Node} {location : Location} {e : LinkError} :
    f.add node location = .error e ↔ f.FirstOffence node.fieldIds e := by
  have hadd : f.add node location = .error e ↔ f.refusal? f.size [] node.fieldIds = some e := by
    unfold add
    cases f.refusal? f.size [] node.fieldIds <;> simp
  have hnone : ∀ before, f.refusal? f.size [] before = none ↔ f.Claimable before := fun before => by
    simp [refusal?_eq_none_iff]
  rw [hadd, refusal?_eq_some_iff]
  constructor
  · rintro ⟨before, child, after, heq, hbefore, h⟩
    exact ⟨before, child, after, heq, (hnone before).mp hbefore, h.congr (by simp)⟩
  · rintro ⟨before, child, after, heq, hbefore, h⟩
    exact ⟨before, child, after, heq, (hnone before).mpr hbefore, h.congr (by simp)⟩

/-! ## Circles -/

/-- Somewhere the owners run in a circle: going up from a node, in one step or more, leads to the node again. -/
def Circular (owner? : NodeId → Option NodeId) : Prop := ∃ id, Relation.TransGen (fun c p => owner? c = some p) id id

/-- A node further up has a shorter lineage. -/
theorem Lineage.length_lt {f : Forest} {id above : NodeId} {line : List NodeId} (h : f.Lineage id line)
    (hup : Relation.TransGen (fun c p => f.parent? c = some p) id above) : ∃ rest, f.Lineage above rest ∧ rest.length < line.length := by
  have hstep : ∀ {c p : NodeId} {line : List NodeId}, f.Lineage c line → f.parent? c = some p →
      ∃ rest, f.Lineage p rest ∧ rest.length < line.length := by
    intro c p line h hp
    cases h with
    | top hnone => rw [hnone] at hp; cases hp
    | under hp' hl =>
      obtain rfl := Option.some.inj (hp'.symm.trans hp)
      exact ⟨_, hl, Nat.lt_succ_self _⟩
  induction hup with
  | single hp => exact hstep h hp
  | tail _ hp ih =>
    obtain ⟨middle, hm, hlt⟩ := ih
    obtain ⟨rest, hr, hlt'⟩ := hstep hm hp
    exact ⟨rest, hr, Nat.lt_trans hlt' hlt⟩

/-- Where every node has a lineage, no owners run in a circle. -/
theorem Grounded.not_circular {f : Forest} (h : f.Grounded) : ¬Circular f.parent? := by
  rintro ⟨id, hup⟩
  obtain ⟨line, hl⟩ := h id
  obtain ⟨rest, hr, hlt⟩ := hl.length_lt hup
  exact Nat.lt_irrefl _ (hl.unique hr ▸ hlt)

theorem parent?_link_eq_update {f : Forest} {parent child : NodeId} (hc : child < f.size) :
    (f.link parent child).parent? = Function.update f.parent? child (some parent) := by
  funext id
  rw [parent?_link hc, Function.update_apply]

/-- The way up to a node that nothing owns is open still when that node gets an owner. -/
theorem Lineage.reaches {f : Forest} {id child : NodeId} {line : List NodeId} (h : f.Lineage id line) (hm : child ∈ line)
    (hun : f.parent? child = none) (owner : NodeId) :
    Relation.ReflTransGen (fun c p => Function.update f.parent? child (some owner) c = some p) id child := by
  induction h with
  | top _ => exact List.mem_singleton.mp hm ▸ .refl
  | @under id parent line hp _ ih =>
    have hne : id ≠ child := by
      rintro rfl
      rw [hun] at hp
      cases hp
    have hedge : Function.update f.parent? child (some owner) id = some parent := (Function.update_of_ne hne _ _).trans hp
    exact (ih ((List.mem_cons.mp hm).resolve_left hne.symm)).head hedge

/-- A child that is owned is refused with the owner it has. -/
theorem addChild_eq_attached {f : Forest} {parent child owner : NodeId} (hp : parent < f.size) (h : f.parent? child = some owner) :
    f.addChild parent child = .error (.attached child owner) := by
  obtain ⟨e, he⟩ := exists_get? (lt_size_of_parent? h)
  have howner : e.parent = some owner := (parent?_of_get? he).symm.trans h
  simp only [addChild, if_neg (Nat.not_le.mpr hp), he, howner]

/-- The walk upwards from the parent meets the child exactly when the owners would run in a circle once the child is attached. -/
theorem circular_iff_mem_ancestors {f : Forest} (hf : f.Linked) (hg : f.Grounded) {parent child : NodeId} (hp : parent < f.size)
    (hc : child < f.size) (hun : f.parent? child = none) :
    Circular (Function.update f.parent? child (some parent)) ↔ child ∈ f.ancestors parent := by
  constructor
  · intro hcircle
    by_contra hm
    rw [← parent?_link_eq_update hc] at hcircle
    exact (hg.link hf hp hc hun hm).not_circular hcircle
  · intro hm
    obtain ⟨line, hl⟩ := hg parent
    rw [hl.ancestors_eq hf hp] at hm
    have hedge : Function.update f.parent? child (some parent) child = some parent := Function.update_self _ _ _
    exact ⟨child, .head' hedge (hl.reaches hm hun parent)⟩

/-- In a forest that calls build, links are made exactly when the forest stays one, and a refused link leaves no trace. A node is added,
under the next number, when the nodes it refers to are different from each other, exist, are not the root and have no owner; otherwise it
is refused with the report of the first one in the order of its fields of which this fails. A child of a parent that exists is attached
when it has no owner and its new one closes no circle; it is refused with the owner it has, and without one as a circle. Done in place,
either call ends, when it is refused, with the forest it was made on. -/
theorem linking_exact {f : Forest} (hf : f.Reached) :
    (∀ node location,
      ((∃ r, f.add node location = .ok r) ↔
        node.fieldIds.Nodup ∧ ∀ c ∈ node.fieldIds, c < f.size ∧ c ≠ root ∧ f.parent? c = none) ∧
      (∀ id g, f.add node location = .ok (id, g) → id = f.size) ∧
      (∀ e, f.add node location = .error e ↔ f.FirstOffence node.fieldIds e) ∧
      ∀ e, f.add node location = .error e → Edit.add node location f = .error e f) ∧
    (∀ parent child, parent < f.size → child < f.size →
      ((∃ g, f.addChild parent child = .ok g) ↔
        f.parent? child = none ∧ ¬Circular (Function.update f.parent? child (some parent))) ∧
      (∀ g, f.addChild parent child = .ok g → g.parent? = Function.update f.parent? child (some parent)) ∧
      (∀ owner, f.parent? child = some owner → f.addChild parent child = .error (.attached child owner)) ∧
      (f.parent? child = none → Circular (Function.update f.parent? child (some parent)) →
        f.addChild parent child = .error (.cycle child parent))) ∧
    ∀ parent child e, f.addChild parent child = .error e → Edit.addChild parent child f = .error e f := by
  have hlinked := hf.linked
  have hgrounded := hf.grounded
  refine ⟨fun node location => ⟨?_, ?_, fun e => add_eq_error_iff, ?_⟩, fun parent child hp hc => ⟨?_, ?_, ?_, ?_⟩, ?_⟩
  · constructor
    · rintro ⟨⟨id, g⟩, hok⟩
      obtain ⟨hclaim, -, -⟩ := add_eq_ok_iff.mp hok
      exact ⟨hclaim.nodup, fun c hc => ⟨hclaim.lt_size c hc, hclaim.ne_root c hc, hclaim.unowned c hc⟩⟩
    · rintro ⟨hnodup, h⟩
      have hclaim : f.Claimable node.fieldIds :=
        ⟨hnodup, fun c hc => (h c hc).1, fun c hc => (h c hc).2.1, fun c hc => (h c hc).2.2⟩
      exact ⟨_, add_eq_ok_iff.mpr ⟨hclaim, rfl, rfl⟩⟩
  · intro id g hok
    exact (add_eq_ok_iff.mp hok).2.1
  · intro e herror
    rw [Edit.add_apply, herror]
  · constructor
    · rintro ⟨g, hok⟩
      obtain ⟨-, -, hun, hm, -⟩ := addChild_eq_ok_iff.mp hok
      exact ⟨hun, fun hcircle => hm ((circular_iff_mem_ancestors hlinked hgrounded hp hc hun).mp hcircle)⟩
    · rintro ⟨hun, hcircle⟩
      rw [circular_iff_mem_ancestors hlinked hgrounded hp hc hun] at hcircle
      exact ⟨_, addChild_eq_ok_iff.mpr ⟨hp, hc, hun, hcircle, rfl⟩⟩
  · intro g hok
    obtain ⟨-, -, -, -, rfl⟩ := addChild_eq_ok_iff.mp hok
    exact parent?_link_eq_update hc
  · intro owner howner
    exact addChild_eq_attached hp howner
  · intro hun hcircle
    obtain ⟨line, hl⟩ := hgrounded parent
    rw [circular_iff_mem_ancestors hlinked hgrounded hp hc hun, hl.ancestors_eq hlinked hp] at hcircle
    exact (addChild_eq_cycle_iff hlinked hl hp hc hun).mpr hcircle
  · intro parent child e herror
    rw [Edit.addChild_apply, herror]

/-- The statement where a node has four faulty claims behind a good one, where a child that nothing owns is attached below itself, and
where it is attached to the root. -/
theorem linking_exact_chain :
    let f := empty.run [.add (.var "a" none) ⟨1, 1⟩, .add (.var "b" none) ⟨1, 3⟩, .add (.var "c" none) ⟨1, 5⟩, .addChild 2 3, .addChild 1 2]
    f.FirstOffence [1, 3, 1, 0, 9] (.attached 3 2) ∧
      Edit.add (.struct "S" [1, 3, 1, 0, 9]) ⟨2, 1⟩ f = .error (.attached 3 2) f ∧
      ¬Circular (Function.update f.parent? 1 (some 0)) ∧ f.addChild 3 1 = .error (.cycle 1 3) ∧
      Edit.addChild 3 1 f = .error (.cycle 1 3) f := by
  intro f
  have hf : f.Reached := ⟨_, rfl⟩
  obtain ⟨hadd, hchild, hplace⟩ := linking_exact hf
  obtain ⟨-, -, hfirst, hedit⟩ := hadd (.struct "S" [1, 3, 1, 0, 9]) ⟨2, 1⟩
  have herror : f.add (.struct "S" [1, 3, 1, 0, 9]) ⟨2, 1⟩ = .error (.attached 3 2) := rfl
  have hbelow : f.addChild 3 1 = .error (.cycle 1 3) := rfl
  have hroot := (hchild 0 1 (by decide +kernel) (by decide +kernel)).1.mp ⟨_, rfl⟩
  exact ⟨(hfirst _).mp herror, hedit _ herror, hroot.2, hbelow, hplace 3 1 _ hbelow⟩

end Forest

end LoopForest
