import LoopForest.Proofs.Forest.Growth

/-!
# Taking a construction back

A construction adds nodes to a forest and attaches children in it. When the nodes numbered from some count on are forgotten afterwards,
every link with one of them at an end is cut, whichever end it is kept at: a kept node loses an owner that is forgotten, and a child list
loses the children that are. So adding a node makes no difference to what is left, and neither does attaching a child when one of the two
nodes is forgotten (`truncate_add`, `truncate_link`).

`LinksNew` says that a construction attaches no node that is kept to another one that is. What is left of it is what would be left without
it (`LinksNew.truncate_run`), so that forgetting the nodes a construction has added gives the forest back that it was made on.
-/

namespace LoopForest

namespace Forest

/-- The calls add nodes and attach children, and wherever they attach one node to another, one of the two is numbered from `count` on.
They are made one after the other, the first one on `f`, and any of them may be refused. -/
inductive LinksNew (count : Nat) : Forest → List Call → Prop where
  | nil {f : Forest} : LinksNew count f []
  | add {f : Forest} (node : Node) (location : Location) {calls : List Call}
    (h : LinksNew count (f.after (.add node location)) calls) : LinksNew count f (.add node location :: calls)
  | attached {f g : Forest} {parent child : NodeId} {calls : List Call} (hok : f.addChild parent child = .ok g)
    (hnew : count ≤ parent ∨ count ≤ child) (h : LinksNew count g calls) : LinksNew count f (.addChild parent child :: calls)
  | refused {f : Forest} {parent child : NodeId} {e : LinkError} {calls : List Call}
    (herror : f.addChild parent child = .error e) (h : LinksNew count f calls) : LinksNew count f (.addChild parent child :: calls)

/-- Whether a child is attached or not makes no difference to what is kept once one of the two nodes is forgotten. -/
theorem truncate_link {f : Forest} {parent child : NodeId} (hun : f.parent? child = none) {count : Nat} (hpos : root < count)
    (hnew : count ≤ parent ∨ count ≤ child) : (f.link parent child).truncate count = f.truncate count := by
  have hmax : max count 1 = count := Nat.max_eq_left hpos
  refine ext_get? fun id => ?_
  rw [get?_truncate, get?_truncate, get?_link, hmax]
  by_cases hid : id < count
  · rw [if_pos hid, if_pos hid]
    cases he : f.get? id with
    | none => rfl
    | some e =>
      -- a node that is kept stands at one end of the link at most, and the other end is cut off
      by_cases hc : child = id
      · have hcut : count ≤ parent := hnew.resolve_right (Nat.not_le.mpr (hc ▸ hid))
        have hp : parent ≠ id := Nat.ne_of_gt (Nat.lt_of_lt_of_le hid hcut)
        have hparent : e.parent = none := (parent?_of_get? he).symm.trans (hc ▸ hun)
        simp [hc, hp, hparent, Nat.not_lt.mpr hcut, Entry.restrict, Entry.ownedBy, Option.filter_some]
      · by_cases hp : parent = id
        · have hcut : count ≤ child := hnew.resolve_left (Nat.not_le.mpr (hp ▸ hid))
          simp [hc, hp, Nat.not_lt.mpr hcut, Entry.restrict, Entry.withChild]
        · simp [hc, hp]
  · rw [if_neg hid, if_neg hid]

/-- Adding a node, whether it is refused or not, makes no difference to what is kept of the nodes there were. -/
theorem truncate_after_add (f : Forest) (node : Node) (location : Location) {count : Nat} (hpos : root < count)
    (hcount : count ≤ f.size) : (f.after (.add node location)).truncate count = f.truncate count := by
  cases h : f.add node location with
  | error e => simp only [after, h]
  | ok r =>
    obtain ⟨hc, -, hg⟩ := add_eq_ok_iff.mp h
    simp only [after, h, hg]
    exact truncate_add location hc (Nat.le_trans (Nat.le_of_eq (Nat.max_eq_left hpos)) hcount)

theorem size_le_after_add (f : Forest) (node : Node) (location : Location) : f.size ≤ (f.after (.add node location)).size := by
  cases h : f.add node location with
  | error e => simp only [after, h, Nat.le_refl]
  | ok r =>
    obtain ⟨-, -, hg⟩ := add_eq_ok_iff.mp h
    simp only [after, h, hg, size_withNode, Nat.le_succ]

/-- A construction that links no two nodes that are kept makes no difference to them. -/
theorem LinksNew.truncate_run {count : Nat} {f : Forest} {calls : List Call} (h : LinksNew count f calls) (hpos : root < count)
    (hcount : count ≤ f.size) : (f.run calls).truncate count = f.truncate count := by
  induction h with
  | nil => rfl
  | @add f node location calls _ ih =>
    rw [run_cons, ih (Nat.le_trans hcount (size_le_after_add f node location))]
    exact truncate_after_add f node location hpos hcount
  | @attached f g parent child calls hok hnew _ ih =>
    obtain ⟨-, -, hun, -, rfl⟩ := addChild_eq_ok_iff.mp hok
    have hafter : f.after (.addChild parent child) = f.link parent child := by simp only [after, hok]
    rw [run_cons, hafter, ih (size_link f parent child ▸ hcount)]
    exact truncate_link hun hpos hnew
  | @refused f parent child e calls herror _ ih =>
    have hafter : f.after (.addChild parent child) = f := by simp only [after, herror]
    rw [run_cons, hafter, ih hcount]

/-- In a forest that calls build, a construction is taken back by forgetting the nodes it has added, when it never attaches one node there
was before to another: every node is what it was and where it was, and has the owner and the children it had, in the order they had. The
new nodes may have taken over old ones by their fields, and old and new ones may have been attached to each other either way round. -/
theorem construction_undone {f : Forest} (hf : f.Reached) {calls : List Call} (h : LinksNew f.size f calls) :
    (f.run calls).truncate f.size = f := by
  have hroot := hf.root_lt_size
  rw [h.truncate_run hroot (Nat.le_refl _)]
  exact truncate_size hf.linked hroot

/-- The statement at a construction that claims one old node by a field, attaches one old node to a new one and the new one to another old
node that has a child already, and is refused a link between old nodes. -/
theorem construction_undone_mixed :
    let f := empty.run [.add (.var "a" none) ⟨1, 1⟩, .add (.var "b" none) ⟨1, 3⟩, .add (.var "c" none) ⟨1, 5⟩, .addChild 2 3]
    let calls : List Call := [.add (.struct "S" [1]) ⟨2, 1⟩, .addChild 2 1, .addChild 4 0, .addChild 2 4, .add (.struct "T" [1]) ⟨3, 1⟩]
    LinksNew f.size f calls ∧ f.run calls ≠ f ∧ (f.run calls).truncate f.size = f := by
  intro f calls
  have herror : (f.after (.add (.struct "S" [1]) ⟨2, 1⟩)).addChild 2 1 = .error (.attached 1 4) := rfl
  have hnew : LinksNew f.size f calls :=
    .add _ _ (.refused herror (.attached rfl (Or.inl (by decide +kernel)) (.attached rfl (Or.inr (by decide +kernel)) (.add _ _ .nil))))
  exact ⟨hnew, by decide +kernel, construction_undone ⟨_, rfl⟩ hnew⟩

end Forest

end LoopForest
