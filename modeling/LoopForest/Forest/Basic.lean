import LoopForest.Forest.Node

/-!
# The forest

A forest keeps every node of one program under a number, its id; ids are given out in order, and the first one is the root, the
program itself. An entry holds a node, its place in the text, the node that owns it and the children attached to it. A node is owned
in one of two ways: through a field of its owner (`Forest.add` takes over every node the new node refers to) or as a child in its
owner's list (`Forest.addChild`). Both refuse to take a node that does not exist or is owned already, and neither closes a circle,
so that a node has one owner at most and the links upwards end. A refused call changes nothing.

`Forest.truncate` forgets the newest nodes and every link to them. Walking upwards (`Forest.ancestors`) is cut off after as many
steps as there are nodes; in a forest built by the calls above the walk has ended by itself before that.
-/

namespace LoopForest

/-- Why a link between two nodes is refused. -/
inductive LinkError where
  | unknown (id : NodeId)
  | attached (child parent : NodeId)
  | cycle (child parent : NodeId)
  deriving DecidableEq, Repr

/-- The report of a refused link. -/
def LinkError.message : LinkError → String
  | .unknown id => "Unknown AST node id " ++ toString id
  | .attached child parent => "AST node " ++ toString child ++ " is already attached to node " ++ toString parent
  | .cycle child parent =>
    "Attaching node " ++ toString child ++ " under node " ++ toString parent ++ " would create a cycle"

/-- What a forest keeps of a node: its place, its owner and, in order, the children attached to it. -/
structure Entry where
  node : Node
  location : Location
  parent : Option NodeId
  children : List NodeId
  deriving DecidableEq, Repr

namespace Entry

/-- A node that nothing owns and that has no children yet. -/
def fresh (node : Node) (location : Location) : Entry := ⟨node, location, none, []⟩

/-- The entry, owned by `parent`. -/
def ownedBy (e : Entry) (parent : NodeId) : Entry := { e with parent := some parent }

/-- The entry, with one more child behind the others. -/
def withChild (e : Entry) (child : NodeId) : Entry := { e with children := e.children ++ [child] }

/-- The entry without the links to nodes numbered from `count` on. -/
def restrict (e : Entry) (count : Nat) : Entry :=
  { e with parent := e.parent.filter (· < count), children := e.children.filter (· < count) }

end Entry

/-- The nodes of one program, numbered from zero. -/
structure Forest where
  entries : Array Entry
  deriving DecidableEq, Repr

namespace Forest

/-- The number of the program, the first node of every forest. -/
def root : NodeId := 0

/-- A forest that holds the program alone. No text shows the program, so its place is before every text. -/
def empty : Forest := ⟨#[Entry.fresh .program default]⟩

instance : Inhabited Forest := ⟨empty⟩

/-- How many nodes there are, the root counted. -/
def size (f : Forest) : Nat := f.entries.size

/-! ## Looking at a node -/

/-- What the forest keeps of a node; nothing of a number not given out. -/
def get? (f : Forest) (id : NodeId) : Option Entry := f.entries[id]?

/-- The node of this number. -/
def node? (f : Forest) (id : NodeId) : Option Node := (f.get? id).map (·.node)

/-- The place of a node. -/
def location? (f : Forest) (id : NodeId) : Option Location := (f.get? id).map (·.location)

/-- The node that owns a node. -/
def parent? (f : Forest) (id : NodeId) : Option NodeId := (f.get? id).bind (·.parent)

/-- The children attached to a node, in order; the nodes in its fields are not among them. -/
def children (f : Forest) (id : NodeId) : List NodeId := ((f.get? id).map (·.children)).getD []

/-- The walk upwards from a node over at most `count` nodes. -/
def climb (f : Forest) : Nat → NodeId → List NodeId
  | 0, _ => []
  | count + 1, id =>
    match f.get? id with
    | none => []
    | some e =>
      match e.parent with
      | none => [id]
      | some parent => id :: f.climb count parent

/-- A node, its owner, the owner of that one and so on; nothing for a number not given out. -/
def ancestors (f : Forest) (id : NodeId) : List NodeId := f.climb f.size id

/-- The loops at the top of the program, in order. -/
def forLoops (f : Forest) : List NodeId :=
  (f.children root).filter fun id => (f.node? id).any Node.isForLoop

/-! ## Linking -/

/-- The first reason why the node of number `owner` cannot take over `claims`, when the nodes in `earlier` are taken over already: a
node that does not exist, the root, a node that is owned, or one that is claimed twice. -/
def refusal? (f : Forest) (owner : NodeId) (earlier : List NodeId) : List NodeId → Option LinkError
  | [] => none
  | child :: claims =>
    match f.get? child with
    | none => some (.unknown child)
    | some e =>
      if child = root then some (.cycle child owner)
      else
        match e.parent with
        | some parent => some (.attached child parent)
        | none =>
          if child ∈ earlier then some (.attached child owner)
          else f.refusal? owner (child :: earlier) claims

/-- The forest in which `owner` owns the nodes of `claims`. -/
def own (f : Forest) (owner : NodeId) (claims : List NodeId) : Forest :=
  ⟨claims.foldl (fun entries child => entries.modify child (·.ownedBy owner)) f.entries⟩

/-- The forest with one more node, which nothing owns. -/
def push (f : Forest) (node : Node) (location : Location) : Forest := ⟨f.entries.push (.fresh node location)⟩

/-- Adds a node, which takes over the nodes it refers to. The answer is the new node's number, the count of nodes before. -/
def add (f : Forest) (node : Node) (location : Location) : Except LinkError (NodeId × Forest) :=
  match f.refusal? f.size [] node.fieldIds with
  | some e => .error e
  | none => .ok (f.size, (f.own f.size node.fieldIds).push node location)

/-- Attaches `child` behind the other children of `parent`. It is refused when one of the two does not exist, when `child` is owned
already, and when `child` is `parent` itself or one of the nodes above it. -/
def addChild (f : Forest) (parent child : NodeId) : Except LinkError Forest :=
  if f.size ≤ parent then .error (.unknown parent)
  else
    match f.get? child with
    | none => .error (.unknown child)
    | some e =>
      match e.parent with
      | some owner => .error (.attached child owner)
      | none =>
        if child ∈ f.ancestors parent then .error (.cycle child parent)
        else .ok ⟨(f.entries.modify child (·.ownedBy parent)).modify parent (·.withChild child)⟩

/-- The forest without the nodes numbered from `count` on and without the links to them. The root stays, whatever `count` is. -/
def truncate (f : Forest) (count : Nat) : Forest :=
  ⟨(f.entries.take (max count 1)).map (·.restrict (max count 1))⟩

/-! ## What the operations do to an entry -/

theorem get?_eq_none_iff (f : Forest) (id : NodeId) : f.get? id = none ↔ f.size ≤ id :=
  Array.getElem?_eq_none_iff

@[simp] theorem size_empty : empty.size = 1 := rfl

@[simp] theorem size_push (f : Forest) (node : Node) (location : Location) : (f.push node location).size = f.size + 1 :=
  Array.size_push _

/-- A new node has the first number not given out yet, and the other nodes stay as they are. -/
theorem get?_push (f : Forest) (node : Node) (location : Location) (id : NodeId) :
    (f.push node location).get? id = if id = f.size then some (.fresh node location) else f.get? id :=
  Array.getElem?_push

@[simp] theorem size_own (f : Forest) (owner : NodeId) (claims : List NodeId) : (f.own owner claims).size = f.size := by
  unfold own size
  generalize f.entries = entries
  induction claims generalizing entries with
  | nil => rfl
  | cons child claims ih => rw [List.foldl_cons, ih, Array.size_modify]

/-- The claimed nodes, and no others, have the new owner. -/
theorem get?_own (f : Forest) (owner : NodeId) (claims : List NodeId) (id : NodeId) :
    (f.own owner claims).get? id = (f.get? id).map fun e => if id ∈ claims then e.ownedBy owner else e := by
  unfold own get?
  generalize f.entries = entries
  induction claims generalizing entries with
  | nil => simp
  | cons child claims ih =>
    rw [List.foldl_cons, ih, Array.getElem?_modify]
    by_cases h : child = id
    · subst h
      cases entries[child]? with
      | none => simp
      | some e => by_cases hm : child ∈ claims <;> simp [hm, Entry.ownedBy]
    · simp [h, Ne.symm h]

@[simp] theorem size_truncate (f : Forest) (count : Nat) : (f.truncate count).size = min (max count 1) f.size := by
  simp [truncate, size]

/-- The nodes below the count stay, without their links to the others. -/
theorem get?_truncate (f : Forest) (count : Nat) (id : NodeId) :
    (f.truncate count).get? id =
      if id < max count 1 then (f.get? id).map (·.restrict (max count 1)) else none := by
  unfold truncate get?
  rw [Array.getElem?_map, Array.take, Array.getElem?_extract, Nat.sub_zero, Nat.zero_add]
  by_cases hc : id < max count 1
  · by_cases hs : id < f.entries.size
    · rw [if_pos hc, if_pos (Nat.lt_min.mpr ⟨hc, hs⟩)]
    · rw [if_pos hc, if_neg (fun h => hs (Nat.lt_min.mp h).2), Array.getElem?_eq_none (Nat.le_of_not_lt hs)]
  · rw [if_neg hc, if_neg (fun h => hc (Nat.lt_min.mp h).1)]
    rfl

end Forest

end LoopForest
