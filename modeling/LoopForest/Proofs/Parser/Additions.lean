import LoopForest.Proofs.Loop.Forms
import LoopForest.Proofs.Parser.Calls

/-!
# What calls add

Whatever is called on a parser, the tokens stay what they are, and the forest only grows, by parts of a few forms (`Addition`): what a
clause says, a loop, or a loop that the root takes for a child. `Builds φ f g` says that `g` is `f` with additions made one after the
other, each of which satisfies `φ`. A call builds additions whose texts are those of the parser's tokens and of the tokens it was given
(`Sound.builds_after`), and a scan builds loops for the root and nothing else (`Sound.builds_parseProgram`). So a property of forests
holds of every parser in use when each addition keeps it.

The calls that read a part of a loop are given here as equations of the whole answer and state, as `parseLoop_eq` gives that of a loop.
-/

namespace LoopForest

/-- Something that a call adds to a forest. -/
inductive Addition where
  /-- A variable. -/
  | target (target : Target)
  /-- A variable and the assignment to it. -/
  | initialization (initialization : Initialization)
  | condition (condition : Condition) (place : Location)
  /-- What an update computes and the assignment of it. -/
  | update (update : Update)
  /-- A loop that nothing owns. -/
  | loop (loop : Loop) (body : List Token) (location : Location)
  /-- A loop that the root takes for a child. -/
  | rootLoop (loop : Loop) (body : List Token) (location : Location)
  deriving DecidableEq, Repr

namespace Addition

/-- The tokens that an addition keeps are among these, and an update in it has one of the operators of updates. -/
def Of (tokens : List Token) : Addition → Prop
  | .target _ | .initialization _ => True
  | .condition c _ => c.left ++ c.right ⊆ tokens
  | .update u => u.operator ∈ updateOperators
  | .loop l body _ | .rootLoop l body _ =>
    l.condition.left ++ l.condition.right ++ body ⊆ tokens ∧ l.update.operator ∈ updateOperators

/-- Tokens that are kept may be among more. -/
theorem Of.mono {a : Addition} {tokens more : List Token} (h : a.Of tokens) (hsub : tokens ⊆ more) : a.Of more := by
  cases a with
  | target | initialization => trivial
  | condition => exact List.Subset.trans h hsub
  | update => exact h
  | loop | rootLoop => exact ⟨List.Subset.trans h.1 hsub, h.2⟩

/-- The addition is a loop for the root. -/
def IsRootLoop : Addition → Prop
  | .rootLoop .. => True
  | _ => False

/-- The nodes that an addition adds to a forest, from this number on. -/
def nodes (first : NodeId) : Addition → List Node
  | .target t => [.var t.name t.type]
  | .initialization i => [.var i.target.name i.target.type, .assignment (.node first) (.raw i.value)]
  | .condition c _ => [.loopCondition c.left c.comparator.value c.right]
  | .update u => [.binary u.operator (.raw u.target) (.raw u.value), .assignment (.raw u.target) (.node first)]
  | .loop l body _ | .rootLoop l body _ =>
    [.var l.initialization.target.name l.initialization.target.type, .assignment (.node first) (.raw l.initialization.value),
      .loopCondition l.condition.left l.condition.comparator.value l.condition.right,
      .binary l.update.operator (.raw l.update.target) (.raw l.update.value), .assignment (.raw l.update.target) (.node (first + 3)),
      .forLoop (first + 1) (first + 2) (first + 4) body]

end Addition

namespace Forest

/-- The forest with an addition. -/
def extend (f : Forest) : Addition → Forest
  | .target t => f.withNode (.var t.name t.type) t.location
  | .initialization i => f.withInitialization i
  | .condition c place => f.withCondition c place
  | .update u => f.withUpdate u
  | .loop l body location => f.withLoop l body location
  | .rootLoop l body location => (f.withLoop l body location).link root (f.size + 5)

/-- All nodes of the forest satisfy `P`. -/
def AllNodes (P : Node → Prop) (f : Forest) : Prop := ∀ id node, f.node? id = some node → P node

section AllNodes

variable {P : Node → Prop} {f : Forest}

theorem allNodes_empty (hP : P .program) : empty.AllNodes P := by
  intro id node hnode
  obtain ⟨e, he, rfl⟩ := Option.map_eq_some_iff.mp hnode
  obtain rfl : id = root := Nat.lt_one_iff.mp (lt_size_of_get? he)
  obtain rfl := Option.some.inj he
  exact hP

theorem AllNodes.withNode (hf : f.AllNodes P) {node : Node} (location : Location) (hnode : P node) :
    (f.withNode node location).AllNodes P := by
  intro id n hn
  rw [node?_withNode] at hn
  split at hn
  · exact Option.some.inj hn ▸ hnode
  · exact hf id n hn

/-- What holds of the nodes of a forest and of those that are added holds of all. -/
theorem AllNodes.extend (hf : f.AllNodes P) {a : Addition} (ha : ∀ node ∈ a.nodes f.size, P node) : (f.extend a).AllNodes P := by
  have hloop : ∀ (l : Loop) (body : List Token) (location : Location),
      (∀ node ∈ (Addition.loop l body location).nodes f.size, P node) → (f.withLoop l body location).AllNodes P := by
    intro l body location h
    simp only [Addition.nodes, List.forall_mem_cons] at h
    obtain ⟨hvar, hassignment, hcondition, hstep, hupdate, hfor, -⟩ := h
    have hinit : (f.withInitialization l.initialization).AllNodes P := (hf.withNode _ hvar).withNode _ hassignment
    have hclauses : (f.withClauses l).AllNodes P := by
      refine ((hinit.withNode _ hcondition).withNode _ hstep).withNode _ ?_
      simpa only [size_withCondition, size_withInitialization] using hupdate
    exact hclauses.withNode _ hfor
  cases a with
  | target t => exact hf.withNode _ (ha _ List.mem_cons_self)
  | initialization i => exact (hf.withNode _ (ha _ (by simp [Addition.nodes]))).withNode _ (ha _ (by simp [Addition.nodes]))
  | condition c place => exact hf.withNode _ (ha _ List.mem_cons_self)
  | update u => exact (hf.withNode _ (ha _ (by simp [Addition.nodes]))).withNode _ (ha _ (by simp [Addition.nodes]))
  | loop l body location => exact hloop l body location ha
  | rootLoop l body location =>
    intro id node hnode
    rw [Forest.extend, node?_link] at hnode
    exact hloop l body location ha id node hnode

end AllNodes

/-- The root takes the loop that is added for it behind its other children. -/
theorem children_root_extend {f : Forest} (hroot : root < f.size) (l : Loop) (body : List Token) (location : Location) :
    (f.extend (.rootLoop l body location)).children root = f.children root ++ [f.size + 5] := by
  have hroot' : root < (f.withLoop l body location).size := Nat.lt_of_lt_of_le hroot (f.keeps_withLoop l body location).size_le
  rw [extend, children_link hroot', if_pos rfl, children_withLoop]

/-- The second forest is the first with additions made one after the other, each of which satisfies `φ`. -/
inductive Builds (φ : Addition → Prop) (f : Forest) : Forest → Prop where
  | refl : Builds φ f f
  | extend {g : Forest} {a : Addition} (h : Builds φ f g) (ha : φ a) : Builds φ f (g.extend a)

namespace Builds

variable {φ ψ : Addition → Prop} {f g h : Forest}

theorem single {a : Addition} (ha : φ a) : Builds φ f (f.extend a) := .extend .refl ha

theorem trans (hfg : Builds φ f g) (hgh : Builds φ g h) : Builds φ f h := by
  induction hgh with
  | refl => exact hfg
  | extend _ ha ih => exact .extend ih ha

theorem mono (hfg : Builds φ f g) (himp : ∀ a, φ a → ψ a) : Builds ψ f g := by
  induction hfg with
  | refl => exact .refl
  | extend _ ha ih => exact .extend ih (himp _ ha)

/-- What every addition keeps is kept. -/
theorem keeps {P : Forest → Prop} (hfg : Builds φ f g) (hf : P f) (step : ∀ g a, φ a → P g → P (g.extend a)) : P g := by
  induction hfg with
  | refl => exact hf
  | extend _ ha ih => exact step _ _ ha ih

end Builds

end Forest

/-! ## What is read comes from the tokens -/

theorem Header.tokens_subset {header : List Token} {clauses : Header} (h : Header.ofTokens header = .ok clauses) :
    ∀ clause ∈ [clauses.initialization, clauses.condition, clauses.update], clause.tokens ⊆ header := by
  obtain ⟨⟩ := Header.ofTokens_eq_ok_iff.mp h
  simp only [List.forall_mem_cons, List.not_mem_nil, false_implies, implies_true, and_true]
  refine ⟨?_, ?_, ?_⟩ <;> intro t ht <;> simp [ht]

theorem Header.condition_subset {header : List Token} {clauses : Header} (h : Header.ofTokens header = .ok clauses) :
    clauses.condition.tokens ⊆ header :=
  Header.tokens_subset h _ (by simp)

theorem Condition.subset_of_ofTokens {lookup : Lookup} {tokens : List Token} {c : Condition}
    (h : Condition.ofTokens lookup tokens = .ok c) : c.left ++ c.right ⊆ tokens := by
  obtain ⟨⟩ := Condition.ofTokens_eq_ok_iff.mp h
  exact List.append_subset.mpr ⟨List.take_subset _ _, List.drop_subset _ _⟩

/-- Whichever way an update is written, it has one of the operators of updates. -/
theorem Update.operator_mem {tokens : List Token} {u : Update} (h : Update.ofTokens tokens = .ok u) :
    u.operator ∈ updateOperators := by
  have hstep : stepOperators ⊆ updateOperators := by decide
  cases Update.ofTokens_eq_ok_iff.mp h with
  | stepped _ _ _ hop | apart _ _ _ hop => exact hstep hop
  | combined _ _ _ _ hop => exact hop

/-- The ways a header is read: the first of its parts that says nothing is the fault, and a loop is what all of them say. -/
inductive Loop.ReadBy (lookup : Lookup) (header : List Token) : Except LoopFault Loop → Prop where
  | header {fault : HeaderFault} (h : Header.ofTokens header = .error fault) : ReadBy lookup header (.error (.header fault))
  | initialization {clauses : Header} {e : ParseError} (hclauses : Header.ofTokens header = .ok clauses)
    (h : clauses.initialization.initialization = .error e) : ReadBy lookup header (.error (.initialization e))
  | condition {clauses : Header} {i : Initialization} {e : ParseError} (hclauses : Header.ofTokens header = .ok clauses)
    (hi : clauses.initialization.initialization = .ok i) (h : clauses.condition.condition lookup = .error e) :
    ReadBy lookup header (.error (.condition i e))
  | update {clauses : Header} {i : Initialization} {c : Condition} {e : ParseError} (hclauses : Header.ofTokens header = .ok clauses)
    (hi : clauses.initialization.initialization = .ok i) (hc : clauses.condition.condition lookup = .ok c)
    (h : clauses.update.update = .error e) : ReadBy lookup header (.error (.update i c clauses.condition.place e))
  | loop {clauses : Header} {i : Initialization} {c : Condition} {u : Update} (hclauses : Header.ofTokens header = .ok clauses)
    (hi : clauses.initialization.initialization = .ok i) (hc : clauses.condition.condition lookup = .ok c)
    (hu : clauses.update.update = .ok u) : ReadBy lookup header (.ok ⟨i, c, clauses.condition.place, u⟩)

theorem Loop.readBy_ofHeader (lookup : Lookup) (header : List Token) : ReadBy lookup header (ofHeader lookup header) := by
  unfold ofHeader
  cases hclauses : Header.ofTokens header with
  | error fault => exact .header hclauses
  | ok clauses =>
    cases hi : clauses.initialization.initialization with
    | error e => simpa only [hi] using ReadBy.initialization hclauses hi
    | ok i =>
      cases hc : clauses.condition.condition lookup with
      | error e => simpa only [hi, hc] using ReadBy.condition hclauses hi hc
      | ok c =>
        cases hu : clauses.update.update with
        | error e => simpa only [hi, hc, hu] using ReadBy.update hclauses hi hc hu
        | ok u => simpa only [hi, hc, hu] using ReadBy.loop hclauses hi hc hu

/-- The error says that a header is not that of a loop. -/
def ParseError.OfHeader : ParseError → Prop
  | .malformedHeader .. | .unsupported .. | .invalidCondition .. => True
  | .lex _ | .unterminated .. | .tree .. => False

/-- A clause that is not read gives an error about a header. -/
theorem Clause.error_ofHeader {clause : Clause} (lookup : Lookup) {e : ParseError}
    (h : clause.initialization = .error e ∨ clause.condition lookup = .error e ∨ clause.update = .error e) : e.OfHeader := by
  rcases h with h | h | h <;> obtain ⟨cause, -, rfl⟩ := mapError_eq_error_iff.mp h <;> trivial

/-- So does a header without three clauses. -/
theorem LoopFault.error_ofHeader {lookup : Lookup} {header : List Token} {fault : LoopFault}
    (h : Loop.ofHeader lookup header = .error fault) (keyword : Location) : (fault.error keyword).OfHeader := by
  have hread := Loop.readBy_ofHeader lookup header
  rw [h] at hread
  cases hread with
  | header => trivial
  | initialization _ he => exact Clause.error_ofHeader lookup (Or.inl he)
  | condition _ _ he => exact Clause.error_ofHeader lookup (Or.inr (Or.inl he))
  | update _ _ _ he => exact Clause.error_ofHeader lookup (Or.inr (Or.inr he))

/-- A clause that is read as an update has one of the operators of updates. -/
theorem Clause.update_operator_mem {clause : Clause} {u : Update} (h : clause.update = .ok u) : u.operator ∈ updateOperators :=
  Update.operator_mem (mapError_eq_ok_iff.mp h)

theorem Clause.condition_subset {clause : Clause} {lookup : Lookup} {c : Condition} (h : clause.condition lookup = .ok c) :
    c.left ++ c.right ⊆ clause.tokens :=
  Condition.subset_of_ofTokens (mapError_eq_ok_iff.mp h)

/-- What a loop says comes from its header. -/
theorem Loop.of_ofHeader {lookup : Lookup} {header body tokens : List Token} {l : Loop} (h : Loop.ofHeader lookup header = .ok l)
    (hheader : header ⊆ tokens) (hbody : body ⊆ tokens) :
    l.condition.left ++ l.condition.right ++ body ⊆ tokens ∧ l.update.operator ∈ updateOperators := by
  have hread := Loop.readBy_ofHeader lookup header
  rw [h] at hread
  cases hread with
  | loop hclauses _ hc hu =>
    have hcondition := List.Subset.trans (Clause.condition_subset hc) (List.Subset.trans (Header.condition_subset hclauses) hheader)
    exact ⟨List.append_subset.mpr ⟨hcondition, hbody⟩, Clause.update_operator_mem hu⟩

/-- The addition is a loop for the root, read from a header and a body whose tokens are among these. -/
inductive Addition.IsLoopOf (tokens : List Token) : Addition → Prop where
  | intro {lookup : Lookup} {header body : List Token} {l : Loop} (location : Location) (hloop : Loop.ofHeader lookup header = .ok l)
    (hheader : header ⊆ tokens) (hbody : body ⊆ tokens) : IsLoopOf tokens (.rootLoop l body location)

namespace Addition.IsLoopOf

variable {tokens : List Token} {a : Addition}

theorem of (h : a.IsLoopOf tokens) : a.Of tokens := by
  obtain ⟨location, hloop, hheader, hbody⟩ := h
  exact Loop.of_ofHeader hloop hheader hbody

theorem isRootLoop (h : a.IsLoopOf tokens) : a.IsRootLoop := by
  cases h
  trivial

end Addition.IsLoopOf

/-- What a loop with a fault leaves comes from its header, too. -/
theorem LoopFault.builds_leaves {lookup : Lookup} {header tokens : List Token} {fault : LoopFault}
    (h : Loop.ofHeader lookup header = .error fault) (hheader : header ⊆ tokens) (f : Forest) :
    f.Builds (Addition.Of tokens) (fault.leaves f) := by
  have hread := Loop.readBy_ofHeader lookup header
  rw [h] at hread
  cases hread with
  | header | initialization => exact .refl
  | @condition _ i _ _ _ _ => exact .single (a := .initialization i) trivial
  | @update clauses i c _ hclauses _ hc _ =>
    have hinit : f.Builds (Addition.Of tokens) (f.withInitialization i) := .single (a := .initialization i) trivial
    have hcondition := List.Subset.trans (Clause.condition_subset hc) (List.Subset.trans (Header.condition_subset hclauses) hheader)
    exact hinit.extend (a := .condition c clauses.condition.place) hcondition

namespace Parser

open Action

/-! ## Reading a part of a loop -/

@[simp] theorem withForest_cursor (p : Parser) (f : Forest) : (p.withForest f).cursor = p.cursor := rfl

@[simp] theorem withForest_forest (p : Parser) (f : Forest) : (p.withForest f).forest = f := rfl

section

variable {p : Parser}

theorem parseTarget_eq (tokens : List Token) (p : Parser) :
    parseTarget tokens p =
      match Target.ofTokens tokens with
      | .ok t => (.ok p.forest.size, p.withForest (p.forest.extend (.target t)))
      | .error m => (.error (.unsupported m.expression m.found (p.anchor m.tokens)), p) := by
  unfold parseTarget
  cases Target.ofTokens tokens with
  | ok t =>
    have hc : p.forest.Claimable (Node.fieldIds (.var t.name t.type)) := p.forest.claimable_nil
    exact addNode_withForest (p := p) t.location hc
  | error m => rfl

theorem parseInitialization_eq (hroot : Forest.root < p.forest.size) (tokens : List Token) :
    parseInitialization tokens p =
      match Initialization.ofTokens tokens with
      | .ok i => (.ok (p.forest.size + 1), p.withForest (p.forest.extend (.initialization i)))
      | .error m => (.error (.unsupported m.expression m.found (p.anchor m.tokens)), p) := by
  unfold parseInitialization
  cases Initialization.ofTokens tokens with
  | ok i => exact addInitialization_withForest (p := p) hroot i
  | error m => rfl

theorem parseCondition_eq (tokens : List Token) (p : Parser) :
    parseCondition tokens p =
      match Condition.ofTokens p.lookup tokens with
      | .ok c => (.ok p.forest.size, p.withForest (p.forest.extend (.condition c (p.anchor tokens))))
      | .error e => (.error (.invalidCondition e (p.anchor tokens)), p) := by
  unfold parseCondition
  cases Condition.ofTokens p.lookup tokens with
  | ok c =>
    have hc : p.forest.Claimable (Node.fieldIds (.loopCondition c.left c.comparator.value c.right)) := p.forest.claimable_nil
    exact addNode_withForest (p := p) _ hc
  | error e => rfl

theorem parseUpdate_eq (hroot : Forest.root < p.forest.size) (tokens : List Token) :
    parseUpdate tokens p =
      match Update.ofTokens tokens with
      | .ok u => (.ok (p.forest.size + 1), p.withForest (p.forest.extend (.update u)))
      | .error m => (.error (.unsupported m.expression m.found (p.anchor m.tokens)), p) := by
  unfold parseUpdate
  cases Update.ofTokens tokens with
  | ok u => exact addUpdate_withForest (p := p) hroot u
  | error m => rfl

/-- A call for a part of a loop adds what the part says, or it stops and the parser stays what it is. -/
theorem part_cases (hroot : Forest.root < p.forest.size) {parse : List Token → Action NodeId}
    (hparse : parse ∈ [parseTarget, parseInitialization, parseCondition, parseUpdate]) (tokens : List Token) :
    (∃ id a, parse tokens p = (.ok id, p.withForest (p.forest.extend a)) ∧ a.Of tokens) ∨
      ∃ e, parse tokens p = (.error e, p) ∧ e.OfHeader := by
  simp only [List.mem_cons, List.not_mem_nil, or_false] at hparse
  rcases hparse with rfl | rfl | rfl | rfl
  · rw [parseTarget_eq]
    cases Target.ofTokens tokens with
    | ok t => exact Or.inl ⟨_, .target t, rfl, trivial⟩
    | error m => exact Or.inr ⟨_, rfl, trivial⟩
  · rw [parseInitialization_eq hroot]
    cases Initialization.ofTokens tokens with
    | ok i => exact Or.inl ⟨_, .initialization i, rfl, trivial⟩
    | error m => exact Or.inr ⟨_, rfl, trivial⟩
  · rw [parseCondition_eq]
    cases hc : Condition.ofTokens p.lookup tokens with
    | ok c => exact Or.inl ⟨_, .condition c _, rfl, Condition.subset_of_ofTokens hc⟩
    | error e => exact Or.inr ⟨_, rfl, trivial⟩
  · rw [parseUpdate_eq hroot]
    cases hu : Update.ofTokens tokens with
    | ok u => exact Or.inl ⟨_, .update u, rfl, Update.operator_mem hu⟩
    | error m => exact Or.inr ⟨_, rfl, trivial⟩

end

/-! ## Scanning -/

/-- The tokens that are cut out are tokens of the parser, and the others stay to come. -/
theorem behind_tokens {p : Parser} {header body : Enclosure.Cut} (keyword : Location)
    (hheader : Enclosure.header.cut? p.options.matching 0 p.cursor.rest = some header)
    (hbody : Enclosure.body.cut? p.options.matching 0 header.rest = some body) :
    (p.behind keyword header body).cursor.tokens = p.cursor.tokens ∧ header.inner ++ body.closed ⊆ p.cursor.tokens := by
  have hrest : p.cursor.rest = header.closed ++ (body.closed ++ body.rest) := by
    rw [Enclosure.cut?_append hbody, Enclosure.cut?_append hheader]
  constructor
  · simp [behind, withCursor, Cursor.moveTo, Cursor.tokens, hrest]
  · intro t ht
    rw [Cursor.tokens, hrest, Enclosure.Cut.closed]
    rcases List.mem_append.mp ht with ht | ht <;> simp [ht]

/-- A loop that is added is put together of the parser's tokens. -/
theorem addLoop_builds {keyword : Location} {p q : Parser} (hp : p.Sound) (h : addLoop keyword p = (.ok (), q)) :
    q.cursor.tokens = p.cursor.tokens ∧ ∃ a : Addition, a.IsLoopOf p.cursor.tokens ∧ q.forest = p.forest.extend a := by
  obtain ⟨loop, r, forest, hc, hadd, rfl⟩ := addLoop_eq_ok h
  obtain ⟨header, body, l, hheader, hbody, hloop, rfl, rfl⟩ := parseConstruct_eq_ok hp.reached.root_lt_size hp.no_opener hc
  obtain ⟨htokens, hsub⟩ := behind_tokens keyword hheader hbody
  obtain ⟨hinner, hclosed⟩ := List.append_subset.mp hsub
  obtain ⟨-, -, -, -, rfl⟩ := Forest.addChild_eq_ok_iff.mp hadd
  exact ⟨htokens, _, .intro keyword hloop hinner hclosed, rfl⟩

/-- A loop that is not added leaves the tokens what they are. -/
theorem addLoop_error_tokens {keyword : Location} {p q : Parser} {e : ParseError} (hp : p.Sound)
    (h : addLoop keyword p = (.error e, q)) : q.cursor.tokens = p.cursor.tokens := by
  obtain ⟨r, hc, rfl⟩ := addLoop_eq_error hp h
  have hend : p.cursor.toEnd.tokens = p.cursor.tokens := by simp [Cursor.toEnd, Cursor.moveTo, Cursor.tokens]
  cases hheader : Enclosure.header.cut? p.options.matching 0 p.cursor.rest with
  | none =>
    rw [parseConstruct_of_no_header keyword hheader] at hc
    obtain ⟨-, rfl⟩ := Prod.mk.inj hc
    exact hend
  | some header =>
    cases hbody : Enclosure.body.cut? p.options.matching 0 header.rest with
    | none =>
      rw [parseConstruct_of_no_body keyword hheader hbody] at hc
      obtain ⟨-, rfl⟩ := Prod.mk.inj hc
      exact hend
    | some body =>
      have htokens := (behind_tokens keyword hheader hbody).1
      rw [parseConstruct_of_cut hp.reached.root_lt_size hp.no_opener keyword hheader hbody] at hc
      cases hloop : Loop.ofHeader p.lookup header.inner with
      | ok l =>
        rw [hloop] at hc
        cases hc
      | error fault =>
        rw [hloop] at hc
        obtain ⟨-, rfl⟩ := Prod.mk.inj hc
        exact htokens

theorem skip_tokens {p : Parser} {t : Token} {rest : List Token} (hrest : p.cursor.rest = t :: rest) :
    (p.skip t rest).cursor.tokens = p.cursor.tokens := by
  simp [skip, Cursor.moveTo, Cursor.tokens, hrest]

/-- Some steps of a scan leave the tokens what they are and build loops for the root. -/
theorem Scans.builds {p q : Parser} (hp : p.Sound) (h : p.Scans q) :
    q.cursor.tokens = p.cursor.tokens ∧ p.forest.Builds (Addition.IsLoopOf p.cursor.tokens) q.forest := by
  induction h with
  | refl => exact ⟨rfl, .refl⟩
  | @step p q r hstep _ ih =>
    obtain ⟨htokens, hbuilds⟩ := ih (hstep.sound hp)
    cases hstep with
    | pass hrest hopen =>
      rw [skip_tokens hrest] at htokens hbuilds
      exact ⟨htokens, hbuilds⟩
    | @add t rest _ hrest hopen hadd =>
      obtain ⟨htokens', a, ha, hforest⟩ := addLoop_builds (hp.skip t rest) hadd
      rw [skip_tokens hrest] at htokens' ha
      rw [htokens'] at htokens hbuilds
      rw [hforest] at hbuilds
      exact ⟨htokens, .trans (.single ha) hbuilds⟩

/-- A scan leaves the tokens what they are, wherever it ends, and builds loops for the root and nothing else. -/
theorem Sound.builds_parseProgram {p : Parser} (hp : p.Sound) :
    p.parseProgram.2.cursor.tokens = p.cursor.tokens ∧
      p.forest.Builds (Addition.IsLoopOf p.cursor.tokens) p.parseProgram.2.forest := by
  obtain ⟨q, hscan, ⟨-, heq⟩ | ⟨e, r, hstop, heq⟩⟩ := p.exists_scans
  · rw [heq]
    exact hscan.builds hp
  · obtain ⟨htokens, hbuilds⟩ := hscan.builds hp
    have hq := hscan.sound hp
    rw [heq, (hstop.rollback hq).1]
    obtain ⟨hrest, hopen, hadd⟩ := hstop
    refine ⟨?_, hbuilds⟩
    rw [addLoop_error_tokens (hq.skip _ _) hadd, skip_tokens hrest, htokens]

/-! ## Calls -/

/-- The tokens a call is given. -/
def Call.tokens : Call → List Token
  | .withOptions _ | .withLookup _ | .parseProgram => []
  | .parseTarget tokens | .parseInitialization tokens | .parseCondition tokens | .parseUpdate tokens => tokens
  | .parseLoop header body _ => header ++ body

/-- A call leaves the tokens of the parser what they are. What it adds to the forest comes from them and from the tokens it is
given. -/
theorem Sound.builds_after {p : Parser} (hp : p.Sound) (call : Call) :
    (p.after call).cursor.tokens = p.cursor.tokens ∧
      p.forest.Builds (Addition.Of (p.cursor.tokens ++ call.tokens)) (p.after call).forest := by
  have hroot := hp.reached.root_lt_size
  have hpart : ∀ parse ∈ [parseTarget, parseInitialization, parseCondition, parseUpdate], ∀ tokens,
      (parse tokens p).2.cursor.tokens = p.cursor.tokens ∧
        p.forest.Builds (Addition.Of (p.cursor.tokens ++ tokens)) (parse tokens p).2.forest := fun parse hparse tokens => by
    rcases part_cases hroot hparse tokens with ⟨id, a, heq, ha⟩ | ⟨e, heq, -⟩ <;> rw [heq]
    · exact ⟨rfl, .single (ha.mono (List.subset_append_right _ _))⟩
    · exact ⟨rfl, .refl⟩
  cases call with
  | withOptions options => exact ⟨rfl, .refl⟩
  | withLookup lookup => exact ⟨rfl, .refl⟩
  | parseProgram =>
    obtain ⟨htokens, hbuilds⟩ := hp.builds_parseProgram
    refine ⟨htokens, hbuilds.mono fun a ha => ?_⟩
    rw [Call.tokens, List.append_nil]
    exact ha.of
  | parseTarget tokens => exact hpart parseTarget (by simp) tokens
  | parseInitialization tokens => exact hpart parseInitialization (by simp) tokens
  | parseCondition tokens => exact hpart parseCondition (by simp) tokens
  | parseUpdate tokens => exact hpart parseUpdate (by simp) tokens
  | parseLoop header body location =>
    have hheader : header ⊆ p.cursor.tokens ++ (header ++ body) := fun t ht => by simp [ht]
    have hbody : body ⊆ p.cursor.tokens ++ (header ++ body) := fun t ht => by simp [ht]
    rw [Parser.after, parseLoop_eq hroot hp.no_opener]
    cases hloop : Loop.ofHeader p.lookup header with
    | ok l =>
      simp only [withForest_cursor, withForest_forest, true_and]
      exact .single (a := .loop l body location) (Loop.of_ofHeader hloop hheader hbody)
    | error fault =>
      simp only [withForest_cursor, withForest_forest, true_and]
      exact LoopFault.builds_leaves hloop hheader p.forest

/-- The call scans the program or changes how that is done. -/
def Call.IsScan : Call → Prop
  | .withOptions _ | .withLookup _ | .parseProgram => True
  | _ => False

theorem Sound.run {p : Parser} (hp : p.Sound) (calls : List Call) : (p.run calls).Sound := by
  induction calls generalizing p with
  | nil => exact hp
  | cons call calls ih => exact ih (hp.after call)

/-- Scans build loops for the root of the parser's tokens and nothing else, with whatever choices they are made. -/
theorem Sound.builds_scans {p : Parser} (hp : p.Sound) {calls : List Call} (hscan : ∀ call ∈ calls, call.IsScan) :
    p.forest.Builds (Addition.IsLoopOf p.cursor.tokens) (p.run calls).forest := by
  induction calls generalizing p with
  | nil => exact .refl
  | cons call calls ih =>
    obtain ⟨hcall, hcalls⟩ := List.forall_mem_cons.mp hscan
    have hfirst : p.forest.Builds (Addition.IsLoopOf p.cursor.tokens) (p.after call).forest := by
      cases call with
      | withOptions options => exact .refl
      | withLookup lookup => exact .refl
      | parseProgram => exact hp.builds_parseProgram.2
      | parseTarget | parseInitialization | parseCondition | parseUpdate | parseLoop => cases hcall
    have hrest := ih (hp.after call) hcalls
    rw [(hp.builds_after call).1] at hrest
    exact hfirst.trans hrest

end Parser

end LoopForest
