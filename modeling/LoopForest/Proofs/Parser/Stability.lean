import LoopForest.Proofs.Parser.Shape

/-!
# Nodes stay what they are

The user of a parser is given numbers of nodes and makes further calls. A scan that stops forgets nodes again, and every new node may
take over others as its own, so it is not clear at once that a number still means the same node afterwards. It does: forests that
calls leave prolong those they find (`Forest.Prolongs`), with every older node under its number, at its place, with its owner and its
children. The root alone gets further children, and these are new.

Each addition prolongs a forest (`Forest.prolongs_extend`), and all that a call does to a forest is additions: what a scan takes back is
of its own making.
-/

namespace LoopForest

namespace Forest

/-- The second forest is the first with nodes behind its own. These nodes may be further children of the root, and nothing else in the
first forest has changed. -/
structure Prolongs (f g : Forest) : Prop extends f.KeepsOwners g where
  children_eq : ∀ id ≠ root, g.children id = f.children id
  children_root : ∃ new, g.children root = f.children root ++ new ∧ ∀ c ∈ new, f.size ≤ c ∧ c < g.size

namespace Prolongs

variable {f g h : Forest}

/-- A forest in which no node has got a child. -/
theorem of_children_eq (hkeep : f.KeepsOwners g) (hchildren : ∀ id, g.children id = f.children id) : f.Prolongs g :=
  ⟨hkeep, fun id _ => hchildren id, [], by rw [hchildren, List.append_nil], nofun⟩

theorem refl (f : Forest) : f.Prolongs f := of_children_eq (.refl f) fun _ => rfl

theorem trans (hfg : f.Prolongs g) (hgh : g.Prolongs h) : f.Prolongs h := by
  obtain ⟨new, hnew, hbounds⟩ := hfg.children_root
  obtain ⟨more, hmore, hbounds'⟩ := hgh.children_root
  refine ⟨hfg.toKeepsOwners.trans hgh.toKeepsOwners, fun id hid => ?_, new ++ more, ?_, fun c hc => ?_⟩
  · rw [hgh.children_eq id hid, hfg.children_eq id hid]
  · rw [hmore, hnew, List.append_assoc]
  · rcases List.mem_append.mp hc with hc | hc
    · obtain ⟨hle, hlt⟩ := hbounds c hc
      exact ⟨hle, Nat.lt_of_lt_of_le hlt hgh.size_le⟩
    · obtain ⟨hle, hlt⟩ := hbounds' c hc
      exact ⟨Nat.le_trans hfg.size_le hle, hlt⟩

end Prolongs

variable {f : Forest}

/-- Every addition prolongs a forest. -/
theorem prolongs_extend (hroot : root < f.size) (a : Addition) : f.Prolongs (f.extend a) := by
  have hkeep := keepsOwners_extend hroot a
  cases a with
  | target | initialization | condition | update | loop => exact .of_children_eq hkeep (children_extend not_false)
  | rootLoop l body location =>
    have hroot' : root < (f.withLoop l body location).size := Nat.lt_of_lt_of_le hroot (f.keeps_withLoop l body location).size_le
    refine ⟨hkeep, fun id hid => ?_, [f.size + 5], children_root_extend hroot l body location, fun c hc => ?_⟩
    · rw [extend, children_link hroot', if_neg hid, children_withLoop]
    · obtain rfl := List.mem_singleton.mp hc
      rw [extend, size_link, size_withLoop]
      exact ⟨Nat.le_add_right _ _, Nat.lt_succ_self _⟩

/-- Additions made one after the other prolong a forest. -/
theorem Builds.prolongs {φ : Addition → Prop} {g : Forest} (hroot : root < f.size) (h : f.Builds φ g) : f.Prolongs g := by
  induction h with
  | refl => exact .refl f
  | extend _ _ ih => exact ih.trans (prolongs_extend (Nat.lt_of_lt_of_le hroot ih.size_le) _)

end Forest

namespace Parser

/-- Whatever is called on a parser in use, and however the call ends, the number of nodes does not go down. Every node there was keeps
what it is, its place and its owner. Only the root may get children: those it had come first, and the others are new. -/
theorem nodes_stay {p : Parser} (hp : p.Reached) (call : Call) :
    let f := p.forest
    let g := (p.after call).forest
    f.size ≤ g.size ∧
    (∀ id < f.size, g.node? id = f.node? id ∧ g.location? id = f.location? id ∧ g.parent? id = f.parent? id) ∧
    (∀ id ≠ Forest.root, g.children id = f.children id) ∧
    ∃ new, g.children Forest.root = f.children Forest.root ++ new ∧ ∀ c ∈ new, f.size ≤ c ∧ c < g.size := by
  intro f g
  have hprolongs : f.Prolongs g := (hp.sound.builds_after call).2.prolongs hp.sound.reached.root_lt_size
  refine ⟨hprolongs.size_le, fun id hid => ?_, hprolongs.children_eq, hprolongs.children_root⟩
  exact ⟨hprolongs.node?_eq id hid, hprolongs.location?_eq id hid, hprolongs.parent?_eq id hid⟩

/-- The statement at a parser that has read an initialization no loop owns, when it scans two loops and stops at the second one, after
nodes of that one were added. -/
theorem nodes_stay_secondLoopBroken :
    let word (text : String) : Token := ⟨.identifier, text, .start⟩
    let p := (ofTokens (["for", "(", "i", "=", "0", ";", "i", "<", "1", ";", "i++", ")", "\x7b", "\x7d",
      "for", "(", "j", "=", "0", ";", ";", "j++", ")", "\x7b", "\x7d"].map word)).run
        [.parseInitialization (["int", "x", "=", "5"].map word)]
    let g := (p.after .parseProgram).forest
    p.Reached ∧ p.forest.size = 3 ∧ g.size = 9 ∧ g.children Forest.root = [8] ∧
      (∀ id < 3, g.node? id = p.forest.node? id ∧ g.location? id = p.forest.location? id ∧ g.parent? id = p.forest.parent? id) ∧
      (∀ id ≠ Forest.root, g.children id = p.forest.children id) := by
  intro word p g
  have hp : p.Reached := ⟨_, _, rfl⟩
  have hsize : p.forest.size = 3 := by decide +kernel
  have hgrown : g.size = 9 := by decide +kernel
  have hroot : g.children Forest.root = [8] := by decide +kernel
  obtain ⟨-, hnodes, hchildren, -⟩ := nodes_stay hp .parseProgram
  exact ⟨hp, hsize, hgrown, hroot, hsize ▸ hnodes, hchildren⟩

end Parser

end LoopForest
