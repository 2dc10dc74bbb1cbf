import LoopForest.Parser.State
import LoopForest.Loop.Header
import LoopForest.Loop.Clause

/-!
# Building the nodes of a loop

What a clause says (`Initialization`, `Condition`, `Update`) becomes nodes of the forest here, and the nodes of the three clauses
become the fields of a loop. A loop takes six nodes: its variable, the assignment to it, its condition, the expression of its update,
the assignment of that, and the loop itself. A clause that is refused adds nothing, but the clauses before it keep what they added.
-/

namespace LoopForest

namespace Parser

open Action (fail addNode)

/-- Stops because some tokens are not the expression they were read as. -/
def refuse {α : Type} (m : Misfit) : Action α := fun p =>
  (.error (.unsupported m.expression m.found (p.anchor m.tokens)), p)

/-- Adds a variable. -/
def addTarget (target : Target) : Action NodeId := addNode (.var target.name target.type) target.location

/-- Adds a variable and the assignment to it, which begins where the variable does. -/
def addInitialization (i : Initialization) : Action NodeId := do
  let target ← addTarget i.target
  addNode (.assignment (.node target) (.raw i.value)) i.target.location

/-- Adds what an update computes and the assignment of it. -/
def addUpdate (u : Update) : Action NodeId := do
  let step ← addNode (.binary u.operator (.raw u.target) (.raw u.value)) u.location
  addNode (.assignment (.raw u.target) (.node step)) u.location

/-- Reads a variable. -/
def parseTarget (tokens : List Token) : Action NodeId :=
  match Target.ofTokens tokens with
  | .ok target => addTarget target
  | .error misfit => refuse misfit

/-- Reads an initialization. -/
def parseInitialization (tokens : List Token) : Action NodeId :=
  match Initialization.ofTokens tokens with
  | .ok initialization => addInitialization initialization
  | .error misfit => refuse misfit

/-- Reads a condition. -/
def parseCondition (tokens : List Token) : Action NodeId := fun p =>
  match Condition.ofTokens p.lookup tokens with
  | .ok c => addNode (.loopCondition c.left c.comparator.value c.right) (p.anchor tokens) p
  | .error e => fail (.invalidCondition e (p.anchor tokens)) p

/-- Reads an update. -/
def parseUpdate (tokens : List Token) : Action NodeId :=
  match Update.ofTokens tokens with
  | .ok update => addUpdate update
  | .error misfit => refuse misfit

/-- Reads the tokens of a clause. The clause's opener is known while that goes on, and no longer. -/
def within (clause : Clause) (parse : List Token → Action NodeId) : Action NodeId := fun p =>
  match parse clause.tokens { p with clauseOpener := some clause.opener.location } with
  | (answer, q) => (answer, { q with clauseOpener := none })

/-- Reads a loop, when its header and its body are cut out and its keyword stands at `location`. The header begins with its opening
parenthesis and does not hold the closing one; the body is kept as it is. -/
def parseLoop (header body : List Token) (location : Location) : Action NodeId :=
  match Header.ofTokens header with
  | .error fault => fail (.malformedHeader fault.reason (fault.location location))
  | .ok clauses => do
    let initialization ← within clauses.initialization parseInitialization
    let condition ← within clauses.condition parseCondition
    let update ← within clauses.update parseUpdate
    addNode (.forLoop initialization condition update body) location

/-! ## Reading a clause moves forward -/

theorem forward_refuse {α : Type} (m : Misfit) : (refuse m : Action α).Forward := fun _ => Nat.le_refl _

theorem forward_addTarget (target : Target) : (addTarget target).Forward := Action.forward_addNode _ _

theorem forward_addInitialization (i : Initialization) : (addInitialization i).Forward :=
  (forward_addTarget _).bind fun _ => Action.forward_addNode _ _

theorem forward_addUpdate (u : Update) : (addUpdate u).Forward :=
  (Action.forward_addNode _ _).bind fun _ => Action.forward_addNode _ _

theorem forward_parseInitialization (tokens : List Token) : (parseInitialization tokens).Forward := by
  unfold parseInitialization
  split
  · exact forward_addInitialization _
  · exact forward_refuse _

theorem forward_parseCondition (tokens : List Token) : (parseCondition tokens).Forward := by
  intro p
  unfold parseCondition
  split
  · exact Action.forward_addNode _ _ p
  · exact Action.forward_fail _ p

theorem forward_parseUpdate (tokens : List Token) : (parseUpdate tokens).Forward := by
  unfold parseUpdate
  split
  · exact forward_addUpdate _
  · exact forward_refuse _

theorem forward_within (clause : Clause) {parse : List Token → Action NodeId} (h : ∀ tokens, (parse tokens).Forward) :
    (within clause parse).Forward :=
  fun p => h clause.tokens { p with clauseOpener := some clause.opener.location }

theorem forward_parseLoop (header body : List Token) (location : Location) : (parseLoop header body location).Forward := by
  unfold parseLoop
  split
  · exact Action.forward_fail _
  · exact (forward_within _ forward_parseInitialization).bind fun _ =>
      (forward_within _ forward_parseCondition).bind fun _ =>
        (forward_within _ forward_parseUpdate).bind fun _ => Action.forward_addNode _ _

end Parser

end LoopForest
