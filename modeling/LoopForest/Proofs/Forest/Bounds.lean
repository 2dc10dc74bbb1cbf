import LoopForest.Proofs.Forest.Calls

/-!
# Forests and indices

Cutting a stretch out of a list and writing to an array end a program when an index is out of bounds. `slice?` and `modify?` are these
two with such an end as the answer `none`. Adding a node and attaching a child are written with them here once more, step by step: a
claim is compared with the slice of those before it, and an entry is looked up again when its owner is written. No index of theirs
is out of bounds in any forest, and they answer as `Forest.add` and `Forest.addChild` do (`addAt?_eq`, `addChildAt?_eq`).
-/

namespace LoopForest

section

variable {α : Type}

/-- The stretch of a list from one index up to another, in bounds when the first is no greater than the second and the second no
greater than the length. -/
def slice? (l : List α) (first last : Nat) : Option (List α) :=
  if first ≤ last ∧ last ≤ l.length then some ((l.take last).drop first) else none

/-- The array with the element at an index changed, in bounds when there is one. -/
def modify? (entries : Array α) (i : Nat) (change : α → α) : Option (Array α) :=
  if i < entries.size then some (entries.modify i change) else none

/-- The stretch between a beginning and an end is in bounds. -/
theorem slice?_append (before middle after : List α) :
    slice? (before ++ middle ++ after) before.length (before.length + middle.length) = some middle := by
  have hlength : (before ++ middle).length = before.length + middle.length := List.length_append
  have hle : before.length + middle.length ≤ (before ++ middle ++ after).length := by
    rw [List.length_append, hlength]
    exact Nat.le_add_right _ _
  rw [slice?, if_pos ⟨Nat.le_add_right _ _, hle⟩, ← hlength, List.take_left, List.drop_left]

/-- The first elements are a slice. -/
theorem slice?_zero {l : List α} {i : Nat} (h : i ≤ l.length) : slice? l 0 i = some (l.take i) := by
  rw [slice?, if_pos ⟨Nat.zero_le _, h⟩, List.drop_zero]

/-- What is left behind some elements is a slice. -/
theorem slice?_length {l : List α} {i : Nat} (h : i ≤ l.length) : slice? l i l.length = some (l.drop i) := by
  rw [slice?, if_pos ⟨h, Nat.le_refl _⟩, List.take_length]

theorem modify?_of_lt {entries : Array α} {i : Nat} (h : i < entries.size) (change : α → α) :
    modify? entries i change = some (entries.modify i change) :=
  if_pos h

end

namespace Forest

/-! ## Adding a node -/

/-- The first reason why the newest node cannot take over the nodes of `claimed`, looked for from index `i` on, where `rest` begins. -/
def refusalAt? (f : Forest) (claimed : List NodeId) (i : Nat) : List NodeId → Option (Option LinkError)
  | [] => some none
  | child :: rest =>
    match f.get? child with
    | none => some (some (.unknown child))
    | some e =>
      if child = root then some (some (.cycle child f.size))
      else
        match e.parent with
        | some parent => some (some (.attached child parent))
        | none =>
          (slice? claimed 0 i).bind fun earlier =>
            if child ∈ earlier then some (some (.attached child f.size)) else f.refusalAt? claimed (i + 1) rest

/-- Writes the owner into the entries of the claimed nodes, one after the other. -/
def ownAt? (owner : NodeId) : List NodeId → Array Entry → Option (Array Entry)
  | [], entries => some entries
  | child :: rest, entries => (modify? entries child (·.ownedBy owner)).bind (ownAt? owner rest)

/-- Adds a node. -/
def addAt? (f : Forest) (node : Node) (location : Location) : Option (Except LinkError (NodeId × Forest)) :=
  (f.refusalAt? node.fieldIds 0 node.fieldIds).bind fun
    | some e => some (.error e)
    | none => (ownAt? f.size node.fieldIds f.entries).map fun entries => .ok (f.size, (⟨entries⟩ : Forest).push node location)

/-- The claims before the one at an index are a slice. -/
theorem refusalAt?_eq (f : Forest) (before rest earlier : List NodeId) (h : ∀ c, c ∈ before ↔ c ∈ earlier) :
    f.refusalAt? (before ++ rest) before.length rest = some (f.refusal? f.size earlier rest) := by
  induction rest generalizing before earlier with
  | nil => rfl
  | cons child rest ih =>
    have hslice : slice? (before ++ child :: rest) 0 before.length = some before := by
      rw [slice?_zero (by simp), List.take_left]
    have hlater : ∀ c, c ∈ before ++ [child] ↔ c ∈ child :: earlier := fun c => by simp [h, or_comm]
    have hih := ih (before ++ [child]) (child :: earlier) hlater
    rw [List.append_assoc, List.singleton_append, List.length_append, List.length_singleton] at hih
    rw [refusalAt?, refusal?]
    cases f.get? child with
    | none => rfl
    | some e =>
      cases hparent : e.parent with
      | some parent => by_cases hroot : child = root <;> simp [hparent, hroot]
      | none => by_cases hroot : child = root <;> by_cases hm : child ∈ earlier <;> simp [hparent, hroot, hslice, h, hm, hih]

/-- The entries of nodes that exist are there to be written. -/
theorem ownAt?_eq {owner : NodeId} {claims : List NodeId} {entries : Array Entry} (h : ∀ c ∈ claims, c < entries.size) :
    ownAt? owner claims entries = some (claims.foldl (fun entries child => entries.modify child (·.ownedBy owner)) entries) := by
  induction claims generalizing entries with
  | nil => rfl
  | cons child claims ih =>
    obtain ⟨hchild, hclaims⟩ := List.forall_mem_cons.mp h
    rw [ownAt?, modify?_of_lt hchild, Option.bind_some, ih (by simpa using hclaims), List.foldl_cons]

/-- Adding a node stays within bounds: the entries are written only once all claims are known to exist. -/
theorem addAt?_eq (f : Forest) (node : Node) (location : Location) : f.addAt? node location = some (f.add node location) := by
  have hrefusal := f.refusalAt?_eq [] node.fieldIds [] fun _ => Iff.rfl
  rw [addAt?, add]
  rw [List.nil_append, List.length_nil] at hrefusal
  rw [hrefusal]
  cases hnone : f.refusal? f.size [] node.fieldIds with
  | some e => rfl
  | none =>
    have hclaims := ((refusal?_eq_none_iff f f.size [] node.fieldIds).mp hnone).1
    simp only [Option.bind_some, ownAt?_eq hclaims.lt_size]
    rfl

/-! ## Attaching a child -/

/-- Attaches a child. -/
def addChildAt? (f : Forest) (parent child : NodeId) : Option (Except LinkError Forest) :=
  if f.size ≤ parent then some (.error (.unknown parent))
  else
    match f.get? child with
    | none => some (.error (.unknown child))
    | some e =>
      match e.parent with
      | some owner => some (.error (.attached child owner))
      | none =>
        if child ∈ f.ancestors parent then some (.error (.cycle child parent))
        else
          (modify? f.entries child (·.ownedBy parent)).bind fun entries =>
            (modify? entries parent (·.withChild child)).map fun entries => .ok ⟨entries⟩

/-- Attaching a child stays within bounds: both entries are written only once both nodes are known to exist. -/
theorem addChildAt?_eq (f : Forest) (parent child : NodeId) : f.addChildAt? parent child = some (f.addChild parent child) := by
  rw [addChildAt?, addChild]
  by_cases hparent : f.size ≤ parent
  · rw [if_pos hparent, if_pos hparent]
  · rw [if_neg hparent, if_neg hparent]
    cases he : f.get? child with
    | none => rfl
    | some e =>
      have hchild : child < f.entries.size := lt_size_of_get? he
      have hparent' : parent < (f.entries.modify child (·.ownedBy parent)).size := by
        rw [Array.size_modify]
        exact Nat.lt_of_not_le hparent
      cases howner : e.parent with
      | some owner => simp [howner]
      | none => by_cases hm : child ∈ f.ancestors parent <;> simp [howner, hm, modify?_of_lt hchild, modify?_of_lt hparent']

end Forest

end LoopForest
