import LoopForest.Forest.Outline
import LoopForest.Proofs.Forest.Calls

/-!
# The wording of a forest

The bare form of a forest has no places, and of the tokens in the conditions and the bodies of loops it keeps the texts alone. Two
forests with the same bare form have the same nodes with the same links and the same wording. Making a forest bare commutes with adding
a node and with attaching a child (`bare_withNode`, `bare_link`), so whatever builds two forests in the same words gives both the same
bare form. An outline shows no place and no kind of a token: a forest and its bare form render to the same lines (`render_bare`).
-/

namespace LoopForest

/-- The token with nothing but its text. -/
def Token.bare (t : Token) : Token := ⟨.identifier, t.value, default⟩

/-- The node with bare tokens, when it is a condition or a loop. -/
def Node.bare : Node → Node
  | .loopCondition left comparator right => .loopCondition (left.map Token.bare) comparator (right.map Token.bare)
  | .forLoop initialization condition update body => .forLoop initialization condition update (body.map Token.bare)
  | node => node

/-- The entry with a bare node and no place. -/
def Entry.bare (e : Entry) : Entry := { e with node := e.node.bare, location := default }

@[simp] theorem Token.joined_bare (tokens : List Token) : Token.joined (tokens.map Token.bare) = Token.joined tokens := by
  have hvalue : (fun t : Token => t.value) ∘ Token.bare = fun t => t.value := rfl
  rw [Token.joined, List.map_map, hvalue, Token.joined]

namespace Node

@[simp] theorem fieldIds_bare (node : Node) : node.bare.fieldIds = node.fieldIds := by
  cases node <;> rfl

@[simp] theorem header_bare (node : Node) : node.bare.header = node.header := by
  cases node <;> rfl

@[simp] theorem tasks_bare (node : Node) (level : Nat) : node.bare.tasks level = node.tasks level := by
  cases node with
  | loopCondition => simp [bare, tasks, Task.tokens]
  | forLoop => simp [bare, tasks, Task.tokens]
  | _ => rfl

end Node

namespace Entry

@[simp] theorem bare_ownedBy (e : Entry) (parent : NodeId) : (e.ownedBy parent).bare = e.bare.ownedBy parent := rfl

@[simp] theorem bare_withChild (e : Entry) (child : NodeId) : (e.withChild child).bare = e.bare.withChild child := rfl

@[simp] theorem tasks_bare (e : Entry) (level : Nat) : e.bare.tasks level = e.tasks level :=
  congrArg (· ++ Task.nodes level e.children) (e.node.tasks_bare level)

end Entry

namespace Forest

/-- The forest with bare entries. -/
def bare (f : Forest) : Forest := ⟨f.entries.map Entry.bare⟩

@[simp] theorem size_bare (f : Forest) : f.bare.size = f.size := Array.size_map

@[simp] theorem get?_bare (f : Forest) (id : NodeId) : f.bare.get? id = (f.get? id).map Entry.bare := Array.getElem?_map

/-- The bare form of a forest with one more node. -/
theorem bare_withNode (f : Forest) (node : Node) (location : Location) :
    (f.withNode node location).bare = f.bare.withNode node.bare default := by
  refine ext_get? fun id => ?_
  rw [get?_bare, get?_withNode, get?_withNode, get?_bare, size_bare, Node.fieldIds_bare]
  split
  · rfl
  · cases f.get? id with
    | none => rfl
    | some e => by_cases hm : id ∈ node.fieldIds <;> simp [hm]

/-- The bare form of a forest in which a child is attached. -/
theorem bare_link (f : Forest) (parent child : NodeId) : (f.link parent child).bare = f.bare.link parent child := by
  refine ext_get? fun id => ?_
  rw [get?_bare, get?_link, get?_link, get?_bare]
  cases f.get? id with
  | none => rfl
  | some e => by_cases hc : child = id <;> by_cases hp : parent = id <;> simp [hc, hp]

/-- The same tasks show the same lines. -/
theorem work_bare (f : Forest) (budget : Nat) (pending : List Task) : f.bare.work budget pending = f.work budget pending := by
  fun_induction work f budget pending with
  | case1 budget => exact work_nil _ _
  | case2 budget l rest ih => rw [work_line, ih]
  | case3 level id rest budget hid ih =>
    have hid' : f.bare.get? id = none := by rw [get?_bare, hid, Option.map_none]
    rw [work_unknown hid', ih]
  | case4 level id rest e hid ih =>
    have hid' : f.bare.get? id = some e.bare := by rw [get?_bare, hid, Option.map_some]
    rw [← ih, work.eq_def]
    simp only [hid']
  | case5 level id rest e budget hid ih =>
    have hid' : f.bare.get? id = some e.bare := by rw [get?_bare, hid, Option.map_some]
    rw [work_node hid', Entry.tasks_bare, ih, Entry.bare, Node.header_bare]

/-- An outline shows nothing that the bare form does not have. -/
theorem render_bare (f : Forest) (id : NodeId) (level : Nat) : f.bare.render id level = f.render id level := by
  rw [render, outline, size_bare, work_bare, render, outline]

end Forest

end LoopForest
