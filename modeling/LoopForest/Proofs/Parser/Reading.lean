import LoopForest.Proofs.Forest.Growth
import LoopForest.Parser.Program

/-!
# What reading does to a parser

The actions that read a loop and its parts share two properties, gathered in `Action.Reads`. Whether such an action answers or stops,
it keeps the parser's choices, does nothing to the forest but add nodes, and leaves no clause opener behind that was not known before
(`Parser.Leads`). And when it answers, it has looked at no token beyond the ones it passed: with other tokens behind those it gives
the same answer and leaves the same state, the other tokens to come (`Action.Reads.frame`).

An action that stops may well have looked further, to the last token even, which is why the second property is about answers alone.
-/

namespace LoopForest

namespace Parser

/-- The parser with these tokens to come, and the others passed as before. -/
def followedBy (p : Parser) (rest : List Token) : Parser := { p with cursor := { p.cursor with rest := rest } }

/-- The second parser is one that reading may make of the first: the choices are the same, the forest has grown, and there is no
clause opener but the one known before. -/
structure Leads (p q : Parser) : Prop where
  options : q.options = p.options
  lookup : q.lookup = p.lookup
  opener : q.clauseOpener = p.clauseOpener ∨ q.clauseOpener = none
  grown : p.forest.Grown q.forest

namespace Leads

theorem refl (p : Parser) : p.Leads p := ⟨rfl, rfl, Or.inl rfl, .refl⟩

theorem trans {p q r : Parser} (h : p.Leads q) (h' : q.Leads r) : p.Leads r := by
  refine ⟨h'.options.trans h.options, h'.lookup.trans h.lookup, ?_, h.grown.trans h'.grown⟩
  rcases h'.opener with heq | hnone
  · rw [heq]; exact h.opener
  · exact Or.inr hnone

end Leads

end Parser

namespace Action

variable {α β : Type}

/-- The action reads: it leads to what reading may make of a parser, and its answers depend on no token beyond those it passes. -/
structure Reads (x : Action α) : Prop where
  leads : ∀ p : Parser, p.Leads (x p).2
  frame : ∀ {p q : Parser} {a : α}, x p = (.ok a, q) → ∃ taken, p.cursor.rest = taken ++ q.cursor.rest ∧
    ∀ rest, x (p.followedBy (taken ++ rest)) = (.ok a, q.followedBy rest)

/-- What reading makes of a parser, whether it answers or stops. -/
theorem Reads.leads_of_eq {x : Action α} (hx : x.Reads) {p q : Parser} {answer : Except ParseError α} (h : x p = (answer, q)) :
    p.Leads q := by
  have hlead := hx.leads p
  rw [h] at hlead
  exact hlead

/-- The two steps of a sequence of actions that answers. -/
theorem bind_eq_ok {x : Action α} {f : α → Action β} {p r : Parser} {b : β} (h : (x >>= f) p = (.ok b, r)) :
    ∃ a q, x p = (.ok a, q) ∧ f a q = (.ok b, r) := by
  rcases hx : x p with ⟨e | a, q⟩
  · rw [bind_of_error hx] at h
    cases h
  · rw [bind_of_ok hx] at h
    exact ⟨a, q, rfl, h⟩

theorem Reads.bind {x : Action α} {f : α → Action β} (hx : x.Reads) (hf : ∀ a, (f a).Reads) : (x >>= f).Reads := by
  constructor
  · intro p
    rcases hp : x p with ⟨e | a, q⟩
    · rw [bind_of_error hp]
      exact hx.leads_of_eq hp
    · rw [bind_of_ok hp]
      exact (hx.leads_of_eq hp).trans ((hf a).leads q)
  · intro p r b h
    obtain ⟨a, q, hp, hq⟩ := bind_eq_ok h
    obtain ⟨taken, htaken, hframe⟩ := hx.frame hp
    obtain ⟨more, hmore, hframe'⟩ := (hf a).frame hq
    refine ⟨taken ++ more, by rw [htaken, hmore, List.append_assoc], fun rest => ?_⟩
    rw [List.append_assoc, bind_of_ok (hframe (more ++ rest)), hframe' rest]

/-- An action that passes no token reads when its answers do not depend on the tokens to come. -/
theorem Reads.of_still {x : Action α} (hl : ∀ p : Parser, p.Leads (x p).2)
    (hs : ∀ {p q : Parser} {a : α}, x p = (.ok a, q) →
      q.cursor = p.cursor ∧ ∀ rest, x (p.followedBy rest) = (.ok a, q.followedBy rest)) : x.Reads := by
  refine ⟨hl, fun {p q a} h => ?_⟩
  obtain ⟨hcursor, hframe⟩ := hs h
  exact ⟨[], by rw [hcursor]; rfl, hframe⟩

theorem reads_pure (a : α) : Reads (pure a : Action α) := by
  refine .of_still Parser.Leads.refl fun {p q b} h => ?_
  obtain ⟨hb, rfl⟩ := Prod.mk.inj h
  exact ⟨rfl, fun rest => Prod.ext hb rfl⟩

/-- An action that always stops has no answers to speak of. -/
theorem reads_fail (e : ParseError) : Reads (fail e : Action α) :=
  .of_still Parser.Leads.refl fun h => nomatch congrArg Prod.fst h

theorem reads_emit (event : Event) : (emit event).Reads := by
  refine .of_still (fun p => ⟨rfl, rfl, Or.inl rfl, .refl⟩) fun {p q a} h => ?_
  obtain ⟨-, rfl⟩ := Prod.mk.inj h
  exact ⟨rfl, fun rest => rfl⟩

/-- The two outcomes of adding a node. -/
theorem addNode_cases (node : Node) (location : Location) (p : Parser) :
    (∃ id forest, p.forest.add node location = .ok (id, forest) ∧
      addNode node location p = (.ok id, { p with forest := forest })) ∨
    ∃ e, p.forest.add node location = .error e ∧ addNode node location p = (.error (.tree e location), p) := by
  unfold addNode
  cases h : p.forest.add node location with
  | ok r => exact Or.inl ⟨r.1, r.2, rfl, rfl⟩
  | error e => exact Or.inr ⟨e, rfl, rfl⟩

theorem leads_addNode (node : Node) (location : Location) (p : Parser) : p.Leads (addNode node location p).2 := by
  rcases addNode_cases node location p with ⟨id, forest, hadd, heq⟩ | ⟨e, -, heq⟩
  · rw [heq]
    exact ⟨rfl, rfl, Or.inl rfl, .single hadd⟩
  · rw [heq]
    exact .refl p

/-- Adding a node passes no token and asks for none. -/
theorem addNode_followedBy {node : Node} {location : Location} {p q : Parser} {id : NodeId}
    (h : addNode node location p = (.ok id, q)) :
    q.cursor = p.cursor ∧ ∀ rest, addNode node location (p.followedBy rest) = (.ok id, q.followedBy rest) := by
  rcases addNode_cases node location p with ⟨id', forest, hadd, heq⟩ | ⟨e, -, heq⟩
  · rw [heq] at h
    obtain ⟨hid, rfl⟩ := Prod.mk.inj h
    refine ⟨rfl, fun rest => ?_⟩
    have hadd' : (p.followedBy rest).forest.add node location = .ok (id', forest) := hadd
    simp only [addNode, hadd']
    exact Prod.ext hid rfl
  · rw [heq] at h
    cases h

theorem reads_addNode (node : Node) (location : Location) : (addNode node location).Reads :=
  .of_still (leads_addNode node location) addNode_followedBy

/-- A construct that ends is cut out, and the cursor stands behind it. -/
theorem enclosed_of_some {enclosure : Enclosure} {p : Parser} {cut : Enclosure.Cut}
    (h : enclosure.cut? p.options.matching 0 p.cursor.rest = some cut) :
    enclosed enclosure p = (.ok cut, { p with cursor := p.cursor.moveTo cut.closed cut.rest }) := by
  unfold enclosed
  rw [h]

/-- A construct that does not end stops the parser, and the cursor stands behind all tokens. -/
theorem enclosed_of_none {enclosure : Enclosure} {p : Parser}
    (h : enclosure.cut? p.options.matching 0 p.cursor.rest = none) :
    enclosed enclosure p =
      (.error (.unterminated enclosure p.cursor.toEnd.lastLocation), { p with cursor := p.cursor.toEnd }) := by
  unfold enclosed
  rw [h]

/-- The two outcomes of cutting out a construct. -/
theorem enclosed_cases (enclosure : Enclosure) (p : Parser) :
    (∃ cut, enclosure.cut? p.options.matching 0 p.cursor.rest = some cut ∧
      enclosed enclosure p = (.ok cut, { p with cursor := p.cursor.moveTo cut.closed cut.rest })) ∨
    (enclosure.cut? p.options.matching 0 p.cursor.rest = none ∧
      enclosed enclosure p =
        (.error (.unterminated enclosure p.cursor.toEnd.lastLocation), { p with cursor := p.cursor.toEnd })) := by
  cases h : enclosure.cut? p.options.matching 0 p.cursor.rest with
  | some cut => exact Or.inl ⟨cut, rfl, enclosed_of_some h⟩
  | none => exact Or.inr ⟨rfl, enclosed_of_none h⟩

theorem leads_enclosed (enclosure : Enclosure) (p : Parser) : p.Leads (enclosed enclosure p).2 := by
  rcases enclosed_cases enclosure p with ⟨cut, -, heq⟩ | ⟨-, heq⟩ <;>
  · rw [heq]
    exact ⟨rfl, rfl, Or.inl rfl, .refl⟩

/-- A construct is cut out in the same way whatever stands behind it. The answer holds the tokens behind it, but what comes next reads
when it does not ask for them. -/
theorem reads_enclosed_bind (enclosure : Enclosure) {f : Enclosure.Cut → Action β} (hf : ∀ cut, (f cut).Reads)
    (hrest : ∀ cut rest, f { cut with rest := rest } = f cut) : (enclosed enclosure >>= f).Reads := by
  constructor
  · intro p
    have hlead := leads_enclosed enclosure p
    rcases enclosed_cases enclosure p with ⟨cut, -, heq⟩ | ⟨-, heq⟩
    · rw [heq] at hlead
      rw [bind_of_ok heq]
      exact hlead.trans ((hf cut).leads _)
    · rw [heq] at hlead
      rw [bind_of_error heq]
      exact hlead
  · intro p r b h
    obtain ⟨cut', q, hp, hq⟩ := bind_eq_ok h
    rcases enclosed_cases enclosure p with ⟨cut, hcut, heq⟩ | ⟨-, heq⟩
    · rw [heq] at hp
      obtain ⟨hc, rfl⟩ := Prod.mk.inj hp
      obtain rfl := Except.ok.inj hc
      obtain ⟨more, hmore, hframe⟩ := (hf cut).frame hq
      have happend := Enclosure.cut?_append hcut
      refine ⟨cut.closed ++ more, ?_, fun rest => ?_⟩
      · rw [← happend, List.append_assoc, ← hmore]
        rfl
      · have hcut' := Enclosure.cut?_followed hcut (more ++ rest)
        have heq' : enclosed enclosure (p.followedBy (cut.closed ++ (more ++ rest))) =
            (.ok { cut with rest := more ++ rest },
              ({ p with cursor := p.cursor.moveTo cut.closed cut.rest } : Parser).followedBy (more ++ rest)) := by
          have hcut'' : enclosure.cut? (p.followedBy (cut.closed ++ (more ++ rest))).options.matching 0
              (p.followedBy (cut.closed ++ (more ++ rest))).cursor.rest = some { cut with rest := more ++ rest } := hcut'
          simp only [enclosed, hcut'']
          rfl
        rw [List.append_assoc, bind_of_ok heq', hrest, hframe rest]
    · rw [heq] at hp
      cases hp

end Action

namespace Parser

open Action

/-! ## The parts of a loop -/

theorem reads_refuse {α : Type} (m : Misfit) : (refuse m : Action α).Reads :=
  .of_still Leads.refl fun h => nomatch congrArg Prod.fst h

theorem reads_addInitialization (i : Initialization) : (addInitialization i).Reads :=
  (reads_addNode _ _).bind fun _ => reads_addNode _ _

theorem reads_addUpdate (u : Update) : (addUpdate u).Reads :=
  (reads_addNode _ _).bind fun _ => reads_addNode _ _

theorem reads_parseTarget (tokens : List Token) : (parseTarget tokens).Reads := by
  unfold parseTarget
  split
  · exact reads_addNode _ _
  · exact reads_refuse _

theorem reads_parseInitialization (tokens : List Token) : (parseInitialization tokens).Reads := by
  unfold parseInitialization
  split
  · exact reads_addInitialization _
  · exact reads_refuse _

theorem reads_parseUpdate (tokens : List Token) : (parseUpdate tokens).Reads := by
  unfold parseUpdate
  split
  · exact reads_addUpdate _
  · exact reads_refuse _

/-- A condition that is cut has tokens, so the place of its node is that of the first of them and not one the cursor gives. -/
theorem ne_nil_of_condition {lookup : Lookup} {tokens : List Token} {c : Condition}
    (h : Condition.ofTokens lookup tokens = .ok c) : tokens ≠ [] := by
  rintro rfl
  unfold Condition.ofTokens at h
  split at h
  · cases h
  · simp at h

theorem reads_parseCondition (tokens : List Token) : (parseCondition tokens).Reads := by
  refine .of_still ?_ ?_
  · intro p
    unfold parseCondition
    split
    · exact leads_addNode _ _ p
    · exact .refl p
  · intro p q a h
    unfold parseCondition at h
    cases hc : Condition.ofTokens p.lookup tokens with
    | error e => rw [hc] at h; cases h
    | ok c =>
      obtain ⟨t, ts, rfl⟩ := List.exists_cons_of_ne_nil (ne_nil_of_condition hc)
      rw [hc] at h
      obtain ⟨hcursor, hframe⟩ := addNode_followedBy h
      refine ⟨hcursor, fun rest => ?_⟩
      have hc' : Condition.ofTokens (p.followedBy rest).lookup (t :: ts) = .ok c := hc
      simp only [parseCondition, hc']
      exact hframe rest

theorem within_eq {clause : Clause} {parse : List Token → Action NodeId} {p q : Parser} {answer : Except ParseError NodeId}
    (h : parse clause.tokens { p with clauseOpener := some clause.opener.location } = (answer, q)) :
    within clause parse p = (answer, { q with clauseOpener := none }) := by
  unfold within
  rw [h]

/-- A clause is read within its opener, and none is known afterwards. -/
theorem reads_within (clause : Clause) {parse : List Token → Action NodeId} (h : ∀ tokens, (parse tokens).Reads) :
    (within clause parse).Reads := by
  constructor
  · intro p
    have hlead := (h clause.tokens).leads { p with clauseOpener := some clause.opener.location }
    exact ⟨hlead.options, hlead.lookup, Or.inr rfl, hlead.grown⟩
  · intro p q a hp
    rcases hr : parse clause.tokens { p with clauseOpener := some clause.opener.location } with ⟨answer, r⟩
    rw [within_eq hr] at hp
    obtain ⟨rfl, rfl⟩ := Prod.mk.inj hp
    obtain ⟨taken, htaken, hframe⟩ := (h clause.tokens).frame hr
    refine ⟨taken, htaken, fun rest => ?_⟩
    have hr' : parse clause.tokens { p.followedBy (taken ++ rest) with clauseOpener := some clause.opener.location } =
        (.ok a, r.followedBy rest) := hframe rest
    exact within_eq hr'

theorem reads_parseLoop (header body : List Token) (location : Location) : (parseLoop header body location).Reads := by
  unfold parseLoop
  split
  · exact reads_fail _
  · exact (reads_within _ reads_parseInitialization).bind fun _ => (reads_within _ reads_parseCondition).bind fun _ =>
      (reads_within _ reads_parseUpdate).bind fun _ => reads_addNode _ _

theorem reads_parseConstruct (keyword : Location) : (parseConstruct keyword).Reads := by
  refine (reads_emit _).bind fun _ => reads_enclosed_bind _ (fun header => ?_) fun _ _ => rfl
  refine reads_enclosed_bind _ (fun body => ?_) fun _ _ => rfl
  exact (reads_emit _).bind fun _ => (reads_parseLoop _ _ _).bind fun _ => (reads_emit _).bind fun _ => reads_pure _

end Parser

end LoopForest
