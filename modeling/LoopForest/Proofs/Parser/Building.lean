import LoopForest.Proofs.Parser.Reading

/-!
# What a loop says and what is built of it

A header can be read without a parser: into what its three clauses say (`Loop.ofHeader`), or into the reason why it is not one
(`LoopFault`). The same goes for what is built: the six nodes of a loop are put behind those of a forest (`Forest.withLoop`), and
those of the clauses before a fault are (`LoopFault.leaves`).

`parseLoop_eq` says that reading a loop is just this, in every parser that reads no clause, and `parseConstruct_of_cut` that it is
so too when the header and the body are still to be cut out. So whether a loop can be read, and the error when it cannot, depends on
its tokens and on the lookup alone, not on the forest or on the cursor.
-/

namespace LoopForest

/-! ## Reading without a parser -/

section

variable {ε ε' α : Type} {x : Except ε α} {f : ε → ε'}

theorem mapError_eq_ok_iff {a : α} : x.mapError f = .ok a ↔ x = .ok a := by
  cases x with
  | ok b =>
    constructor <;> intro h <;> obtain rfl := Except.ok.inj h <;> rfl
  | error e =>
    constructor <;> intro h <;> cases h

theorem mapError_eq_error_iff {e' : ε'} : x.mapError f = .error e' ↔ ∃ e, x = .error e ∧ f e = e' := by
  cases x with
  | ok b =>
    constructor
    · intro h
      cases h
    · rintro ⟨e, h, -⟩
      cases h
  | error e =>
    constructor
    · intro h
      exact ⟨e, rfl, Except.error.inj h⟩
    · rintro ⟨e, h, rfl⟩
      obtain rfl := Except.error.inj h
      rfl

end

/-- Where an error about tokens behind `opener` shows: at the first of them, and at the opener when there is none. -/
def placeOf (tokens : List Token) (opener : Location) : Location :=
  match tokens with
  | [] => opener
  | t :: _ => t.location

/-- A misfit as an error, when `opener` opens the clause it stands in. -/
def Misfit.error (m : Misfit) (opener : Location) : ParseError := .unsupported m.expression m.found (placeOf m.tokens opener)

/-- Where a clause begins: at its first token, or at its opener when it has none. -/
def Clause.place (c : Clause) : Location := placeOf c.tokens c.opener.location

/-- The clause read as an initialization. -/
def Clause.initialization (c : Clause) : Except ParseError Initialization :=
  (Initialization.ofTokens c.tokens).mapError (·.error c.opener.location)

/-- The clause read as a condition. -/
def Clause.condition (c : Clause) (lookup : Lookup) : Except ParseError Condition :=
  (Condition.ofTokens lookup c.tokens).mapError (.invalidCondition · c.place)

/-- The clause read as an update. -/
def Clause.update (c : Clause) : Except ParseError Update :=
  (Update.ofTokens c.tokens).mapError (·.error c.opener.location)

/-- What the header of a loop says, and where its condition begins. -/
structure Loop where
  initialization : Initialization
  condition : Condition
  place : Location
  update : Update
  deriving DecidableEq, Repr

/-- Why a header is not that of a loop: it has no three clauses, or one of them says nothing, when those before it say something. -/
inductive LoopFault where
  | header (fault : HeaderFault)
  | initialization (error : ParseError)
  | condition (initialization : Initialization) (error : ParseError)
  | update (initialization : Initialization) (condition : Condition) (place : Location) (error : ParseError)
  deriving DecidableEq, Repr

/-- Reads the header of a loop, one clause after the other. -/
def Loop.ofHeader (lookup : Lookup) (header : List Token) : Except LoopFault Loop :=
  match Header.ofTokens header with
  | .error fault => .error (.header fault)
  | .ok clauses =>
    match clauses.initialization.initialization with
    | .error e => .error (.initialization e)
    | .ok initialization =>
      match clauses.condition.condition lookup with
      | .error e => .error (.condition initialization e)
      | .ok condition =>
        match clauses.update.update with
        | .error e => .error (.update initialization condition clauses.condition.place e)
        | .ok update => .ok ⟨initialization, condition, clauses.condition.place, update⟩

/-- The error of a loop whose keyword stands at `keyword`. -/
def LoopFault.error (keyword : Location) : LoopFault → ParseError
  | .header fault => .malformedHeader fault.reason (fault.location keyword)
  | .initialization e => e
  | .condition _ e => e
  | .update _ _ _ e => e

/-! ## Building without a parser -/

namespace Forest

/-- The forest with the variable of an initialization and the assignment to it. -/
def withInitialization (f : Forest) (i : Initialization) : Forest :=
  (f.withNode (.var i.target.name i.target.type) i.target.location).withNode (.assignment (.node f.size) (.raw i.value))
    i.target.location

/-- The forest with a condition. -/
def withCondition (f : Forest) (c : Condition) (place : Location) : Forest :=
  f.withNode (.loopCondition c.left c.comparator.value c.right) place

/-- The forest with what an update computes and the assignment of it. -/
def withUpdate (f : Forest) (u : Update) : Forest :=
  (f.withNode (.binary u.operator (.raw u.target) (.raw u.value)) u.location).withNode
    (.assignment (.raw u.target) (.node f.size)) u.location

/-- The forest with the nodes of the three clauses of a loop. -/
def withClauses (f : Forest) (l : Loop) : Forest :=
  ((f.withInitialization l.initialization).withCondition l.condition l.place).withUpdate l.update

/-- The forest with the six nodes of a loop; the loop itself is the last of them. -/
def withLoop (f : Forest) (l : Loop) (body : List Token) (location : Location) : Forest :=
  (f.withClauses l).withNode (.forLoop (f.size + 1) (f.size + 2) (f.size + 4) body) location

end Forest

/-- The nodes that a loop with a fault leaves in a forest: those of the clauses before the fault. -/
def LoopFault.leaves (f : Forest) : LoopFault → Forest
  | .header _ => f
  | .initialization _ => f
  | .condition i _ => f.withInitialization i
  | .update i c place _ => (f.withInitialization i).withCondition c place

namespace Forest

variable {f : Forest}

theorem claimable_nil (f : Forest) : f.Claimable [] := ⟨List.nodup_nil, nofun, nofun, nofun⟩

/-- The node added last can be taken over, unless it is the root. -/
theorem claimable_withNode {node : Node} (hroot : root < f.size) (hc : f.Claimable node.fieldIds) (location : Location) :
    (f.withNode node location).Claimable [f.size] := by
  have hnew : f.size ∉ node.fieldIds := fun hm => Nat.lt_irrefl _ (hc.lt_size _ hm)
  refine ⟨List.pairwise_singleton _ _, ?_, ?_, ?_⟩ <;> intro c hm <;> obtain rfl := List.mem_singleton.mp hm
  · rw [size_withNode]
    exact Nat.lt_succ_self _
  · exact Nat.ne_of_gt hroot
  · rw [parent?_withNode _ hc, if_neg hnew, parent?_eq_none_of_le (Nat.le_refl _)]

@[simp] theorem size_withInitialization (f : Forest) (i : Initialization) : (f.withInitialization i).size = f.size + 2 := by
  simp [withInitialization]

@[simp] theorem size_withCondition (f : Forest) (c : Condition) (place : Location) :
    (f.withCondition c place).size = f.size + 1 := by
  simp [withCondition]

@[simp] theorem size_withUpdate (f : Forest) (u : Update) : (f.withUpdate u).size = f.size + 2 := by
  simp [withUpdate]

@[simp] theorem size_withClauses (f : Forest) (l : Loop) : (f.withClauses l).size = f.size + 5 := by
  simp [withClauses]

/-- Of two nodes, the second of which takes over the first, the first is owned by the second; all others keep their owners. -/
theorem parent?_withPair {first second : Node} (hroot : root < f.size) (hfirst : first.fieldIds = [])
    (hsecond : second.fieldIds = [f.size]) (location : Location) (id : NodeId) :
    ((f.withNode first location).withNode second location).parent? id =
      if id = f.size then some (f.size + 1) else f.parent? id := by
  have hc : f.Claimable first.fieldIds := hfirst ▸ claimable_nil f
  have hc' : (f.withNode first location).Claimable second.fieldIds := hsecond ▸ claimable_withNode hroot hc location
  rw [parent?_withNode location hc', parent?_withNode location hc, size_withNode, hfirst, hsecond]
  simp

theorem parent?_withInitialization (hroot : root < f.size) (i : Initialization) (id : NodeId) :
    (f.withInitialization i).parent? id = if id = f.size then some (f.size + 1) else f.parent? id :=
  parent?_withPair hroot rfl rfl _ id

theorem parent?_withCondition (f : Forest) (c : Condition) (place : Location) (id : NodeId) :
    (f.withCondition c place).parent? id = f.parent? id := by
  rw [withCondition, parent?_withNode place (claimable_nil f)]
  rfl

theorem parent?_withUpdate (hroot : root < f.size) (u : Update) (id : NodeId) :
    (f.withUpdate u).parent? id = if id = f.size then some (f.size + 1) else f.parent? id :=
  parent?_withPair hroot rfl rfl _ id

theorem root_lt_size_withInitialization (hroot : root < f.size) (i : Initialization) : root < (f.withInitialization i).size := by
  rw [size_withInitialization]
  exact Nat.lt_add_right _ hroot

theorem root_lt_size_withCondition (hroot : root < f.size) (c : Condition) (place : Location) :
    root < (f.withCondition c place).size := by
  rw [size_withCondition]
  exact Nat.lt_add_right _ hroot

theorem keeps_withLoop (f : Forest) (l : Loop) (body : List Token) (location : Location) :
    f.Keeps (f.withLoop l body location) := by
  have hinit : f.Keeps (f.withInitialization l.initialization) := (Keeps.withNode _ _ _).trans (.withNode _ _ _)
  have hcond : f.Keeps ((f.withInitialization l.initialization).withCondition l.condition l.place) :=
    hinit.trans (.withNode _ _ _)
  have hclauses : f.Keeps (f.withClauses l) := hcond.trans ((Keeps.withNode _ _ _).trans (.withNode _ _ _))
  exact hclauses.trans (.withNode _ _ _)

/-- A loop is built of fields, and no node gets a child. -/
theorem children_withLoop (f : Forest) (l : Loop) (body : List Token) (location : Location) (id : NodeId) :
    (f.withLoop l body location).children id = f.children id := by
  simp only [withLoop, withClauses, withInitialization, withCondition, withUpdate, children_withNode]

@[simp] theorem size_withLoop (f : Forest) (l : Loop) (body : List Token) (location : Location) :
    (f.withLoop l body location).size = f.size + 6 := by
  simp [withLoop]

/-- The nodes of the three clauses of a loop: the variable and the expression of the update are owned, and all others keep their
owners. -/
theorem parent?_withClauses (hroot : root < f.size) (l : Loop) (id : NodeId) :
    (f.withClauses l).parent? id =
      if id = f.size + 3 then some (f.size + 4) else if id = f.size then some (f.size + 1) else f.parent? id := by
  have hroot' := root_lt_size_withCondition (root_lt_size_withInitialization hroot l.initialization) l.condition l.place
  rw [withClauses, parent?_withUpdate hroot', parent?_withCondition, parent?_withInitialization hroot, size_withCondition,
    size_withInitialization]

/-- The clauses of a loop are owned by no node yet, so the loop can take them over. -/
theorem claimable_withClauses (hroot : root < f.size) (l : Loop) :
    (f.withClauses l).Claimable [f.size + 1, f.size + 2, f.size + 4] := by
  have hnone : ∀ id, f.size ≤ id → f.parent? id = none := fun id => parent?_eq_none_of_le
  refine ⟨by simp, ?_, ?_, ?_⟩
  · rw [size_withClauses]
    simp
  · have : root = 0 := rfl
    simp [this]
  · simp only [List.forall_mem_cons]
    simp [parent?_withClauses hroot, hnone]

/-- The owners in a forest with a loop. -/
theorem parent?_withLoop (hroot : root < f.size) (l : Loop) (body : List Token) (location : Location) (id : NodeId) :
    (f.withLoop l body location).parent? id =
      if id ∈ [f.size + 1, f.size + 2, f.size + 4] then some (f.size + 5) else (f.withClauses l).parent? id := by
  have hc : (f.withClauses l).Claimable (Node.forLoop (f.size + 1) (f.size + 2) (f.size + 4) body).fieldIds :=
    claimable_withClauses hroot l
  rw [withLoop, parent?_withNode location hc, size_withClauses]
  rfl

/-- A loop that is built is owned by no node yet. -/
theorem parent?_withLoop_new (hroot : root < f.size) (l : Loop) (body : List Token) (location : Location) :
    (f.withLoop l body location).parent? (f.size + 5) = none := by
  have hc : (f.withClauses l).Claimable (Node.forLoop (f.size + 1) (f.size + 2) (f.size + 4) body).fieldIds :=
    claimable_withClauses hroot l
  have hnew : f.size + 5 ∉ (Node.forLoop (f.size + 1) (f.size + 2) (f.size + 4) body).fieldIds := by simp [Node.fieldIds]
  rw [withLoop, parent?_withNode location hc, if_neg hnew]
  exact parent?_eq_none_of_le (Nat.le_of_eq (size_withClauses f l))

end Forest

/-- Whether some of the tokens are passed first makes no difference once all are. -/
theorem Cursor.toEnd_moveTo {c : Cursor} {taken rest : List Token} (h : taken ++ rest = c.rest) :
    (c.moveTo taken rest).toEnd = c.toEnd := by
  simp [toEnd, moveTo, ← h]

/-! ## Reading is building -/

namespace Parser

open Action

/-- The parser with another forest. -/
def withForest (p : Parser) (f : Forest) : Parser := { p with forest := f }

/-- The parser with another cursor. -/
def withCursor (p : Parser) (c : Cursor) : Parser := { p with cursor := c }

/-- The parser with one more event in its log. -/
def noting (p : Parser) (event : Event) : Parser := { p with log := p.log.push event }

theorem emit_eq (event : Event) (p : Parser) : emit event p = (.ok (), p.noting event) := rfl

section

variable {p : Parser} {f : Forest}

theorem addNode_withForest {node : Node} (location : Location) (hc : f.Claimable node.fieldIds) :
    addNode node location (p.withForest f) = (.ok f.size, p.withForest (f.withNode node location)) := by
  have hadd : f.add node location = .ok (f.size, f.withNode node location) := Forest.add_eq_ok_iff.mpr ⟨hc, rfl, rfl⟩
  simp only [addNode, withForest, hadd]

/-- Two nodes are added, of which the second takes over the first. -/
theorem addPair_withForest (first : Node) (second : NodeId → Node) (hroot : Forest.root < f.size) (hfirst : first.fieldIds = [])
    (hsecond : ∀ id, (second id).fieldIds = [id]) (location : Location) :
    (addNode first location >>= fun id => addNode (second id) location) (p.withForest f) =
      (.ok (f.size + 1), p.withForest ((f.withNode first location).withNode (second f.size) location)) := by
  have hc : f.Claimable first.fieldIds := hfirst ▸ Forest.claimable_nil f
  have hc' : (f.withNode first location).Claimable (second f.size).fieldIds :=
    hsecond f.size ▸ Forest.claimable_withNode hroot hc location
  rw [bind_of_ok (addNode_withForest location hc), addNode_withForest location hc', Forest.size_withNode]

theorem addInitialization_withForest (hroot : Forest.root < f.size) (i : Initialization) :
    addInitialization i (p.withForest f) = (.ok (f.size + 1), p.withForest (f.withInitialization i)) :=
  addPair_withForest (.var i.target.name i.target.type) (fun id => .assignment (.node id) (.raw i.value)) hroot rfl
    (fun _ => rfl) _

theorem addUpdate_withForest (hroot : Forest.root < f.size) (u : Update) :
    addUpdate u (p.withForest f) = (.ok (f.size + 1), p.withForest (f.withUpdate u)) :=
  addPair_withForest (.binary u.operator (.raw u.target) (.raw u.value)) (fun id => .assignment (.raw u.target) (.node id)) hroot
    rfl (fun _ => rfl) _

/-- A loop is added behind its clauses. -/
theorem addForLoop_withForest (hroot : Forest.root < f.size) (l : Loop) (body : List Token) (location : Location) :
    addNode (.forLoop (f.size + 1) (f.size + 2) (f.size + 4) body) location (p.withForest (f.withClauses l)) =
      (.ok (f.size + 5), p.withForest (f.withLoop l body location)) := by
  have hc := Forest.claimable_withClauses hroot l
  rw [addNode_withForest location (show (f.withClauses l).Claimable (Node.forLoop _ _ _ body).fieldIds from hc),
    Forest.size_withClauses]
  rfl

theorem anchor_eq {opener : Location} (h : p.clauseOpener = some opener) (tokens : List Token) :
    p.anchor tokens = placeOf tokens opener := by
  cases tokens with
  | nil => simp [anchor, placeOf, h]
  | cons t ts => rfl

theorem refuse_eq {α : Type} {opener : Location} (h : p.clauseOpener = some opener) (m : Misfit) :
    (refuse m : Action α) p = (.error (m.error opener), p) := by
  rw [refuse, anchor_eq h]
  rfl

/-- The parser while it reads a clause. -/
def inside (p : Parser) (clause : Clause) : Parser := { p with clauseOpener := some clause.opener.location }

/-- A clause is read in a parser that knows its opener, and what is read leaves one that knows none. -/
theorem within_withForest (hnone : p.clauseOpener = none) {clause : Clause} {parse : List Token → Action NodeId}
    {answer : Except ParseError NodeId} {g : Forest}
    (h : parse clause.tokens ((p.inside clause).withForest f) = (answer, (p.inside clause).withForest g)) :
    within clause parse (p.withForest f) = (answer, p.withForest g) := by
  rw [within_eq h, withForest, withForest, inside, ← hnone]

theorem within_parseInitialization (hroot : Forest.root < f.size) (hnone : p.clauseOpener = none) (clause : Clause) :
    within clause parseInitialization (p.withForest f) =
      match clause.initialization with
      | .ok i => (.ok (f.size + 1), p.withForest (f.withInitialization i))
      | .error e => (.error e, p.withForest f) := by
  unfold Clause.initialization
  cases h : Initialization.ofTokens clause.tokens with
  | ok i =>
    refine within_withForest hnone ?_
    simp only [parseInitialization, h]
    exact addInitialization_withForest hroot i
  | error m =>
    refine within_withForest hnone ?_
    simp only [parseInitialization, h]
    exact refuse_eq rfl m

theorem within_parseCondition (hnone : p.clauseOpener = none) (clause : Clause) :
    within clause parseCondition (p.withForest f) =
      match clause.condition p.lookup with
      | .ok c => (.ok f.size, p.withForest (f.withCondition c clause.place))
      | .error e => (.error e, p.withForest f) := by
  have hlookup : ((p.inside clause).withForest f).lookup = p.lookup := rfl
  unfold Clause.condition
  cases h : Condition.ofTokens p.lookup clause.tokens with
  | ok c =>
    refine within_withForest hnone ?_
    simp only [parseCondition, hlookup, h]
    rw [anchor_eq rfl]
    exact addNode_withForest _ (Forest.claimable_nil f)
  | error e =>
    refine within_withForest hnone ?_
    simp only [parseCondition, hlookup, h]
    rw [anchor_eq rfl]
    rfl

theorem within_parseUpdate (hroot : Forest.root < f.size) (hnone : p.clauseOpener = none) (clause : Clause) :
    within clause parseUpdate (p.withForest f) =
      match clause.update with
      | .ok u => (.ok (f.size + 1), p.withForest (f.withUpdate u))
      | .error e => (.error e, p.withForest f) := by
  unfold Clause.update
  cases h : Update.ofTokens clause.tokens with
  | ok u =>
    refine within_withForest hnone ?_
    simp only [parseUpdate, h]
    exact addUpdate_withForest hroot u
  | error m =>
    refine within_withForest hnone ?_
    simp only [parseUpdate, h]
    exact refuse_eq rfl m

end

/-- Reading a loop in a parser that reads no clause: the answer and the nodes are those of the header, the body and the place of the
keyword, and nothing else of the parser changes. -/
theorem parseLoop_eq {p : Parser} (hroot : Forest.root < p.forest.size) (hnone : p.clauseOpener = none)
    (header body : List Token) (location : Location) :
    parseLoop header body location p =
      match Loop.ofHeader p.lookup header with
      | .ok loop => (.ok (p.forest.size + 5), p.withForest (p.forest.withLoop loop body location))
      | .error fault => (.error (fault.error location), p.withForest (fault.leaves p.forest)) := by
  unfold parseLoop Loop.ofHeader
  cases Header.ofTokens header with
  | error fault => rfl
  | ok clauses =>
    have hinit : within clauses.initialization parseInitialization p = _ :=
      within_parseInitialization (f := p.forest) hroot hnone clauses.initialization
    cases hi : clauses.initialization.initialization with
    | error e =>
      rw [hi] at hinit
      simp only [hi, bind_of_error hinit]
      rfl
    | ok i =>
      rw [hi] at hinit
      have hcond := within_parseCondition (f := p.forest.withInitialization i) hnone clauses.condition
      cases hc : clauses.condition.condition p.lookup with
      | error e =>
        rw [hc] at hcond
        simp only [hi, hc, bind_of_ok hinit, bind_of_error hcond]
        rfl
      | ok c =>
        rw [hc] at hcond
        have hroot' := Forest.root_lt_size_withCondition (Forest.root_lt_size_withInitialization hroot i) c clauses.condition.place
        have hupd := within_parseUpdate hroot' hnone clauses.update
        cases hu : clauses.update.update with
        | error e =>
          rw [hu] at hupd
          simp only [hi, hc, hu, bind_of_ok hinit, bind_of_ok hcond, bind_of_error hupd]
          rfl
        | ok u =>
          rw [hu] at hupd
          simp only [hi, hc, hu, bind_of_ok hinit, bind_of_ok hcond, bind_of_ok hupd]
          simp only [Forest.size_withCondition, Forest.size_withInitialization]
          exact addForLoop_withForest hroot ⟨i, c, clauses.condition.place, u⟩ body location

/-! ## The construct behind a keyword -/

section

variable {p : Parser} {header body : Enclosure.Cut}

/-- The parser behind a construct that was cut out, before the construct is read. -/
def behind (p : Parser) (keyword : Location) (header body : Enclosure.Cut) : Parser :=
  ((p.noting (.found keyword)).noting (.delimited header.inner.length body.closed.length)).withCursor
    ((p.cursor.moveTo header.closed header.rest).moveTo body.closed body.rest)

theorem parseConstruct_of_no_header (keyword : Location)
    (hheader : Enclosure.header.cut? p.options.matching 0 p.cursor.rest = none) :
    parseConstruct keyword p = (.error (.unterminated .header p.cursor.toEnd.lastLocation),
      (p.noting (.found keyword)).withCursor p.cursor.toEnd) := by
  have hend := enclosed_of_none (p := p.noting (.found keyword)) hheader
  rw [parseConstruct, bind_of_ok (emit_eq _ p), bind_of_error hend]
  rfl

theorem parseConstruct_of_no_body (keyword : Location)
    (hheader : Enclosure.header.cut? p.options.matching 0 p.cursor.rest = some header)
    (hbody : Enclosure.body.cut? p.options.matching 0 header.rest = none) :
    parseConstruct keyword p = (.error (.unterminated .body p.cursor.toEnd.lastLocation),
      (p.noting (.found keyword)).withCursor p.cursor.toEnd) := by
  have hcut := enclosed_of_some (p := p.noting (.found keyword)) hheader
  have hend := enclosed_of_none (p := (p.noting (.found keyword)).withCursor (p.cursor.moveTo header.closed header.rest)) hbody
  have hall : (p.cursor.moveTo header.closed header.rest).toEnd = p.cursor.toEnd :=
    Cursor.toEnd_moveTo (Enclosure.cut?_append hheader)
  rw [← hall, parseConstruct, bind_of_ok (emit_eq _ p), bind_of_ok hcut]
  exact bind_of_error hend

/-- A construct that can be cut out is read as its header says. -/
theorem parseConstruct_of_cut (hroot : Forest.root < p.forest.size) (hnone : p.clauseOpener = none) (keyword : Location)
    (hheader : Enclosure.header.cut? p.options.matching 0 p.cursor.rest = some header)
    (hbody : Enclosure.body.cut? p.options.matching 0 header.rest = some body) :
    parseConstruct keyword p =
      match Loop.ofHeader p.lookup header.inner with
      | .ok loop => (.ok (p.forest.size + 5),
          ((p.behind keyword header body).withForest (p.forest.withLoop loop body.closed keyword)).noting
            (.parsed (p.forest.size + 5)))
      | .error fault =>
        (.error (fault.error keyword), (p.behind keyword header body).withForest (fault.leaves p.forest)) := by
  have hcut := enclosed_of_some (p := p.noting (.found keyword)) hheader
  have hcut' := enclosed_of_some (p := (p.noting (.found keyword)).withCursor (p.cursor.moveTo header.closed header.rest)) hbody
  have hread := parseLoop_eq (p := p.behind keyword header body) hroot hnone header.inner body.closed keyword
  have hconstruct : parseConstruct keyword p =
      (parseLoop header.inner body.closed keyword >>= fun loop => emit (.parsed loop) >>= fun _ => pure loop)
        (p.behind keyword header body) := by
    rw [parseConstruct, bind_of_ok (emit_eq _ p), bind_of_ok hcut]
    exact bind_of_ok hcut'
  have hlookup : (p.behind keyword header body).lookup = p.lookup := rfl
  rw [hlookup] at hread
  rw [hconstruct]
  cases hloop : Loop.ofHeader p.lookup header.inner with
  | ok loop =>
    rw [hloop] at hread
    exact bind_of_ok hread
  | error fault =>
    rw [hloop] at hread
    exact bind_of_error hread

/-- A construct that was read was cut out, and its header is that of the loop that was built. -/
theorem parseConstruct_eq_ok (hroot : Forest.root < p.forest.size) (hnone : p.clauseOpener = none) {keyword : Location}
    {id : NodeId} {q : Parser} (h : parseConstruct keyword p = (.ok id, q)) :
    ∃ header body loop, Enclosure.header.cut? p.options.matching 0 p.cursor.rest = some header ∧
      Enclosure.body.cut? p.options.matching 0 header.rest = some body ∧ Loop.ofHeader p.lookup header.inner = .ok loop ∧
      id = p.forest.size + 5 ∧
      q = ((p.behind keyword header body).withForest (p.forest.withLoop loop body.closed keyword)).noting (.parsed id) := by
  cases hheader : Enclosure.header.cut? p.options.matching 0 p.cursor.rest with
  | none =>
    rw [parseConstruct_of_no_header keyword hheader] at h
    cases h
  | some header =>
    cases hbody : Enclosure.body.cut? p.options.matching 0 header.rest with
    | none =>
      rw [parseConstruct_of_no_body keyword hheader hbody] at h
      cases h
    | some body =>
      rw [parseConstruct_of_cut hroot hnone keyword hheader hbody] at h
      cases hloop : Loop.ofHeader p.lookup header.inner with
      | error fault =>
        rw [hloop] at h
        cases h
      | ok loop =>
        rw [hloop] at h
        obtain ⟨hid, rfl⟩ := Prod.mk.inj h
        obtain rfl := Except.ok.inj hid
        exact ⟨header, body, loop, rfl, hbody, hloop, rfl, rfl⟩

end

end Parser

end LoopForest
