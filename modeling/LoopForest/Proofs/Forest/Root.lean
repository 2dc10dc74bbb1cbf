import LoopForest.Proofs.Forest.Calls

/-!
# The owner of the root

The root is the program, and nothing should own it. `add` refuses it by name. `addChild` does not: it refuses the root only through
the search that keeps circles out, and that search meets the root only from nodes below it. A node that is not attached yet takes
the root for a child (`root_attached`), and the program is then no longer at the top of the forest.

This is the only way to an owner of the root. `parent?_root_run_iff` says which calls lead to it: the root is owned by a node exactly
when it was attached to that node, at a moment when nothing owned the root and the node did not stand below it, and when the node was
not forgotten since.
-/

namespace LoopForest

namespace Forest

/-! ## One call -/

/-- Adding a node, whether it is refused or not, keeps the owner of the root. -/
theorem parent?_root_add (f : Forest) (node : Node) (location : Location) :
    (f.after (.add node location)).parent? root = f.parent? root := by
  cases h : f.add node location with
  | error e => simp only [after, h]
  | ok r =>
    obtain ⟨hc, -, hg⟩ := add_eq_ok_iff.mp h
    simp only [after, h, hg]
    exact parent?_root_withNode location hc

/-- Attaching a child gives the root an owner when the child is the root, nothing owns it, and the parent does not stand below it. -/
theorem parent?_root_addChild (f : Forest) (hpos : root < f.size) (parent child p : NodeId) :
    (f.after (.addChild parent child)).parent? root = some p ↔
      (parent = p ∧ child = root ∧ f.parent? root = none ∧ p < f.size ∧ root ∉ f.ancestors p) ∨ f.parent? root = some p := by
  cases h : f.addChild parent child with
  | error e =>
    have hno : ¬(parent = p ∧ child = root ∧ f.parent? root = none ∧ p < f.size ∧ root ∉ f.ancestors p) := by
      rintro ⟨rfl, hroot, hun, hp, hm⟩
      have := addChild_eq_ok_iff.mpr ⟨hp, hpos, hun, hm, rfl⟩
      rw [← hroot, h] at this
      cases this
    simp only [after, h, hno, false_or]
  | ok g =>
    obtain ⟨hp, hc, hun, hm, hg⟩ := addChild_eq_ok_iff.mp h
    simp only [after, h, hg]
    rw [parent?_link hc]
    by_cases hroot : root = child
    · rw [if_pos hroot]
      subst hroot
      constructor
      · intro heq
        obtain rfl := Option.some.inj heq
        exact Or.inl ⟨rfl, rfl, hun, hp, hm⟩
      · rintro (⟨rfl, -⟩ | hown)
        · rfl
        · rw [hun] at hown
          cases hown
    · have hroot' : child ≠ root := fun h => hroot h.symm
      simp [hroot, hroot']

/-- One call gives the root an owner by attaching it, or leaves it one that is not forgotten. -/
theorem parent?_root_after (f : Forest) (hpos : root < f.size) (call : Call) (p : NodeId) :
    (f.after call).parent? root = some p ↔
      (call = .addChild p root ∧ f.parent? root = none ∧ p < f.size ∧ root ∉ f.ancestors p) ∨
        (f.parent? root = some p ∧ ∀ count, call = .truncate count → p < max count 1) := by
  cases call with
  | add node location => simp [parent?_root_add]
  | addChild parent child => simp [parent?_root_addChild f hpos, and_assoc]
  | truncate count =>
    simp only [after, parent?_truncate, if_pos (root_lt_max count), Option.filter_eq_some_iff]
    simp

/-! ## A sequence of calls -/

/-- The owner of the root after some calls, from any forest. -/
theorem parent?_root_run (f : Forest) (hpos : root < f.size) (calls : List Call) (p : NodeId) :
    (f.run calls).parent? root = some p ↔
      (∃ before after, calls = before ++ .addChild p root :: after ∧ (f.run before).parent? root = none ∧
        p < (f.run before).size ∧ root ∉ (f.run before).ancestors p ∧ ∀ count, .truncate count ∈ after → p < max count 1) ∨
      (f.parent? root = some p ∧ ∀ count, .truncate count ∈ calls → p < max count 1) := by
  induction calls generalizing f with
  | nil => simp
  | cons call calls ih =>
    rw [run_cons, ih _ (root_lt_size_after hpos call), parent?_root_after f hpos]
    constructor
    · rintro (⟨before, after, rfl, hun, hp, hm, hafter⟩ | ⟨⟨rfl, hun, hp, hm⟩ | ⟨hown, hcall⟩, hcalls⟩)
      · exact Or.inl ⟨call :: before, after, rfl, hun, hp, hm, hafter⟩
      · exact Or.inl ⟨[], calls, rfl, hun, hp, hm, hcalls⟩
      · refine Or.inr ⟨hown, fun count hcount => ?_⟩
        rcases List.mem_cons.mp hcount with heq | hcount
        · exact hcall count heq.symm
        · exact hcalls count hcount
    · rintro (⟨before, after, heq, hun, hp, hm, hafter⟩ | ⟨hown, hcalls⟩)
      · cases before with
        | nil =>
          obtain ⟨rfl, rfl⟩ := List.cons.inj heq
          exact Or.inr ⟨Or.inl ⟨rfl, hun, hp, hm⟩, hafter⟩
        | cons first before =>
          obtain ⟨rfl, rfl⟩ := List.cons.inj heq
          exact Or.inl ⟨before, after, rfl, hun, hp, hm, hafter⟩
      · refine Or.inr ⟨Or.inr ⟨hown, fun count hcount => ?_⟩, fun count hcount => ?_⟩
        · exact hcalls count (hcount ▸ List.mem_cons_self)
        · exact hcalls count (List.mem_cons_of_mem _ hcount)

/-- A node owns the root exactly when the root was attached to it, at a moment when nothing owned the root and the node existed and
did not stand below the root, and when the node was not forgotten since. Without such a call the root has no owner. -/
theorem parent?_root_run_iff (calls : List Call) (p : NodeId) :
    (empty.run calls).parent? root = some p ↔
      ∃ before after, calls = before ++ .addChild p root :: after ∧ (empty.run before).parent? root = none ∧
        p < (empty.run before).size ∧ root ∉ (empty.run before).ancestors p ∧
        ∀ count, .truncate count ∈ after → p < max count 1 := by
  have hnone : empty.parent? root ≠ some p := nofun
  rw [parent?_root_run empty Nat.one_pos]
  simp only [hnone, false_and, or_false]

/-- A node that is not attached takes the root for a child. -/
theorem root_attached : (empty.run [.add (.var "a" none) ⟨1, 1⟩, .addChild 1 root]).parent? root = some 1 := by
  decide +kernel

end Forest

end LoopForest
