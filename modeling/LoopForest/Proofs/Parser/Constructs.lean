import LoopForest.Proofs.Parser.Calls

/-!
# Scanning to the end

A scan stops at the first loop it cannot read, and scanning again goes on behind it. Where that is, the tokens alone decide:
`constructs` cuts them from left to right at the keywords, and at the delimiters behind each, without reading what it cuts out.
What comes of one construct does not depend on the others (`Construct.outcome`). So a parser that is asked to scan until it answers
stops once at each construct that gives an error, and attaches a loop for each of the others (`scanTimes_constructs`).

The proof goes construct by construct: a whole one that can be read is one step of the scan, any other one stops it, and both leave
the parser behind the tokens of the construct, with its choices as they were (`Parser.Continues`).
-/

namespace LoopForest

/-! ## Cutting without reading -/

/-- A keyword that opens a loop, and what the tokens behind it are cut into. -/
inductive Construct where
  /-- A header without the parenthesis that closes it, and a body with the brace that closes it. -/
  | whole (keyword : Token) (header body : List Token)
  /-- All tokens behind the keyword, in which the header, or the body behind it, does not end. -/
  | unfinished (keyword : Token) (enclosure : Enclosure) (rest : List Token)
  deriving DecidableEq, Repr

/-- The constructs of some tokens, from left to right. Tokens between two of them are passed over; an unfinished one is the last. -/
def constructs (options : Options) : List Token → List Construct
  | [] => []
  | t :: ts =>
    if t.is options.keyword then
      match _ : Enclosure.header.cut? options.matching 0 ts with
      | none => [.unfinished t .header ts]
      | some header =>
        match _ : Enclosure.body.cut? options.matching 0 header.rest with
        | none => [.unfinished t .body ts]
        | some body => .whole t header.inner body.closed :: constructs options body.rest
    else constructs options ts
termination_by ts => ts.length
decreasing_by
  · have hheader : Enclosure.header.cut? options.matching 0 ts = some header := ‹_›
    have hbody : Enclosure.body.cut? options.matching 0 header.rest = some body := ‹_›
    have := Enclosure.length_rest_lt hheader
    have := Enclosure.length_rest_lt hbody
    simp only [List.length_cons]
    omega
  · exact Nat.lt_succ_self _

/-- What comes of a construct by itself: the place and the body of a loop, or an error. -/
def Construct.outcome (lookup : Lookup) : Construct → Except ParseError (Location × List Token)
  | .whole keyword header body =>
    match (Parser.parseLoop header body keyword.location ((Parser.ofTokens []).withLookup lookup)).1 with
    | .ok _ => .ok (keyword.location, body)
    | .error e => .error e
  | .unfinished keyword enclosure rest => .error (.unterminated enclosure (rest.getLast?.getD keyword).location)

/-- The error a construct gives, unless it is a loop. -/
def Construct.error? (lookup : Lookup) (c : Construct) : Option ParseError :=
  match c.outcome lookup with
  | .ok _ => none
  | .error e => some e

/-- The place and the body of the loop a construct is, unless it gives an error. -/
def Construct.loop? (lookup : Lookup) (c : Construct) : Option (Location × List Token) := (c.outcome lookup).toOption

/-- There is no construct without a keyword of its own. -/
theorem length_constructs_le (options : Options) (tokens : List Token) :
    (constructs options tokens).length ≤ tokens.countP (·.is options.keyword) := by
  fun_induction constructs options tokens with
  | case1 => exact Nat.le_refl _
  | case2 t ts hopen => simp [hopen]
  | case3 t ts hopen header hheader hbody => simp [hopen]
  | case4 t ts hopen header hheader body hbody ih =>
    have hsub : body.rest.Sublist ts := by
      rw [← Enclosure.cut?_append hheader, ← Enclosure.cut?_append hbody, ← List.append_assoc]
      exact List.sublist_append_right _ _
    have hcount : body.rest.countP (·.is options.keyword) ≤ ts.countP (·.is options.keyword) := hsub.countP_le
    simp only [List.length_cons, List.countP_cons, hopen, if_true]
    exact Nat.succ_le_succ (Nat.le_trans ih hcount)
  | case5 t ts hopen ih => simpa [hopen] using ih

/-- A whole construct is a loop when its header reads as one, in whatever parser. -/
theorem Construct.outcome_whole (lookup : Lookup) (keyword : Token) (header body : List Token) :
    (Construct.whole keyword header body).outcome lookup =
      match Loop.ofHeader lookup header with
      | .ok _ => .ok (keyword.location, body)
      | .error fault => .error (fault.error keyword.location) := by
  have heq := Parser.parseLoop_eq (p := (Parser.ofTokens []).withLookup lookup) Nat.one_pos rfl header body keyword.location
  have hlookup : ((Parser.ofTokens []).withLookup lookup).lookup = lookup := rfl
  rw [Construct.outcome, heq, hlookup]
  cases Loop.ofHeader lookup header <;> rfl

namespace Forest

/-- The place and the body of a node that is a loop. -/
def loopAt? (f : Forest) (id : NodeId) : Option (Location × List Token) :=
  match f.node? id, f.location? id with
  | some (.forLoop _ _ _ body), some location => some (location, body)
  | _, _ => none

/-- What the children of the root are, as loops. -/
def attached (f : Forest) : List (Option (Location × List Token)) := (f.children root).map f.loopAt?

variable {f : Forest}

theorem Keeps.loopAt?_eq {g : Forest} (h : f.Keeps g) {id : NodeId} (hid : id < f.size) : g.loopAt? id = f.loopAt? id := by
  rw [loopAt?, h.node?_eq id hid, h.location?_eq id hid, loopAt?]

/-- A loop that is built and attached to the root has the place and the body it is built with. -/
theorem loopAt?_withLoop (f : Forest) (l : Loop) (body : List Token) (location : Location) :
    ((f.withLoop l body location).link root (f.size + 5)).loopAt? (f.size + 5) = some (location, body) := by
  simp [loopAt?, withLoop, node?_withNode, location?_withNode]

/-- A loop that is built and attached to the root comes behind the others. -/
theorem attached_withLoop (hf : f.Linked) (hroot : root < f.size) (l : Loop) (body : List Token) (location : Location) :
    ((f.withLoop l body location).link root (f.size + 5)).attached = f.attached ++ [some (location, body)] := by
  have hkeeps := (f.keeps_withLoop l body location).trans (.link _ root (f.size + 5))
  have hroot' : root < (f.withLoop l body location).size := Nat.lt_of_lt_of_le hroot (f.keeps_withLoop l body location).size_le
  have hold : ∀ id ∈ f.children root, ((f.withLoop l body location).link root (f.size + 5)).loopAt? id = f.loopAt? id :=
    fun id hid => hkeeps.loopAt?_eq (hf.child_lt hid)
  rw [attached, children_link hroot', if_pos rfl, children_withLoop, List.map_append, List.map_congr_left hold, List.map_singleton,
    loopAt?_withLoop, attached]

end Forest

/-- Behind all tokens, the token passed last is the last one of those that were to come, if there were any. -/
theorem Cursor.lastLocation_toEnd {c : Cursor} {t : Token} (h : c.passed.head? = some t) :
    c.toEnd.lastLocation = (c.rest.getLast?.getD t).location := by
  obtain ⟨passed, rest⟩ := c
  rcases List.eq_nil_or_concat rest with rfl | ⟨init, last, rfl⟩
  · cases passed with
    | nil => cases h
    | cons s passed =>
      obtain rfl := Option.some.inj h
      rfl
  · simp [toEnd, moveTo, lastLocation]

namespace Parser

open Action

/-! ## One construct -/

/-- The second parser goes on where the first one comes to: it is sound, its choices are the same, and `rest` is to come. -/
structure Continues (p q : Parser) (rest : List Token) : Prop where
  sound : q.Sound
  options : q.options = p.options
  lookup : q.lookup = p.lookup
  rest_eq : q.cursor.rest = rest

section

variable {p q : Parser} {t : Token} {ts : List Token}

/-- A keyword with a construct behind it that can be read is one step of a scan. -/
theorem exists_step (hp : p.Sound) (hrest : p.cursor.rest = t :: ts) (hopen : t.is p.options.keyword = true) {loop : NodeId}
    (hread : parseConstruct t.location (p.skip t ts) = (.ok loop, q)) :
    ∃ r, p.Step r ∧ p.Continues r q.cursor.rest ∧ r.forest = q.forest.link Forest.root loop := by
  have hlead := (reads_parseConstruct t.location).leads_of_eq hread
  have hstep : p.Step (q.withForest (q.forest.link Forest.root loop)) := .add hrest hopen (addLoop_of_ok (hp.skip t ts) hread)
  exact ⟨_, hstep, ⟨hstep.sound hp, hlead.options, hlead.lookup, rfl⟩, rfl⟩

/-- A keyword with a construct behind it that cannot be read stops a scan. -/
theorem exists_stops (hp : p.Sound) (hrest : p.cursor.rest = t :: ts) (hopen : t.is p.options.keyword = true) {e : ParseError}
    (hread : parseConstruct t.location (p.skip t ts) = (.error e, q)) :
    ∃ r, p.Stops e r ∧ p.Continues r q.cursor.rest ∧ r.forest = p.forest := by
  have hlead := (reads_parseConstruct t.location).leads_of_eq hread
  have hstop : p.Stops e (q.withForest p.forest) := .intro hrest hopen (addLoop_of_error (hp.skip t ts) hread)
  exact ⟨_, hstop, ⟨hstop.sound hp, hlead.options, hlead.lookup, rfl⟩, (hstop.rollback hp).1⟩

end

/-! ## Scanning again and again -/

/-- Scans so many times in a row: the answers, and the parser that is left. -/
def scanTimes : Nat → Parser → List (Except ParseError NodeId) × Parser
  | 0, p => ([], p)
  | count + 1, p =>
    let later := scanTimes count p.parseProgram.2
    (p.parseProgram.1 :: later.1, later.2)

/-- Scanning stops with `errors`, once with each, before it answers, and by then it has attached `loops`. -/
def Ends (p : Parser) (errors : List ParseError) (loops : List (Location × List Token)) : Prop :=
  ∃ q, q.Sound ∧ scanTimes (errors.length + 1) p = (errors.map .error ++ [.ok Forest.root], q) ∧
    q.forest.attached = p.forest.attached ++ loops.map some

namespace Ends

variable {p q : Parser} {errors : List ParseError} {loops : List (Location × List Token)}

theorem done (hp : p.Sound) (hrest : p.cursor.rest = []) : p.Ends [] [] := by
  refine ⟨p, hp, ?_, (List.append_nil _).symm⟩
  simp only [List.length_nil, scanTimes, parseProgram_of_nil hrest]
  rfl

theorem step (h : p.Step q) (more : List (Location × List Token))
    (hattached : q.forest.attached = p.forest.attached ++ more.map some) (hq : q.Ends errors loops) :
    p.Ends errors (more ++ loops) := by
  obtain ⟨r, hr, hscan, hloops⟩ := hq
  refine ⟨r, hr, ?_, ?_⟩
  · rw [← hscan, scanTimes, scanTimes, h.parseProgram_eq]
  · rw [hloops, hattached, List.map_append, List.append_assoc]

theorem stop {e : ParseError} (h : p.Stops e q) (hforest : q.forest = p.forest) (hq : q.Ends errors loops) :
    p.Ends (e :: errors) loops := by
  obtain ⟨r, hr, hscan, hloops⟩ := hq
  refine ⟨r, hr, ?_, ?_⟩
  · rw [List.length_cons, scanTimes, h.parseProgram_eq, hscan]
    rfl
  · rw [hloops, hforest]

end Ends

section

variable {p : Parser} {t : Token} {ts : List Token}

/-- At an unfinished construct a scan stops, and the next one has no token left. -/
theorem ends_unfinished (hp : p.Sound) (hrest : p.cursor.rest = t :: ts) (hopen : t.is p.options.keyword = true)
    {enclosure : Enclosure} {q : Parser}
    (hread : parseConstruct t.location (p.skip t ts) =
      (.error (.unterminated enclosure (p.skip t ts).cursor.toEnd.lastLocation), q)) (hend : q.cursor.rest = []) :
    p.Ends [.unterminated enclosure (ts.getLast?.getD t).location] [] := by
  obtain ⟨r, hstop, hr, hforest⟩ := exists_stops hp hrest hopen hread
  have hlast : (p.skip t ts).cursor.toEnd.lastLocation = (ts.getLast?.getD t).location := Cursor.lastLocation_toEnd rfl
  rw [hlast] at hstop
  exact .stop hstop hforest (.done hr.sound (hr.rest_eq.trans hend))

/-- At a whole construct a scan makes a step or stops, as the construct by itself says, and goes on behind it. -/
theorem ends_whole (hp : p.Sound) (hrest : p.cursor.rest = t :: ts) (hopen : t.is p.options.keyword = true)
    {header body : Enclosure.Cut} (hheader : Enclosure.header.cut? p.options.matching 0 ts = some header)
    (hbody : Enclosure.body.cut? p.options.matching 0 header.rest = some body) {cs : List Construct}
    (hlater : ∀ r, p.Continues r body.rest → r.Ends (cs.filterMap (·.error? p.lookup)) (cs.filterMap (·.loop? p.lookup))) :
    p.Ends ((.whole t header.inner body.closed :: cs).filterMap (·.error? p.lookup))
      ((.whole t header.inner body.closed :: cs).filterMap (·.loop? p.lookup)) := by
  have hroot := hp.reached.root_lt_size
  have hread := parseConstruct_of_cut (p := p.skip t ts) hroot hp.no_opener t.location hheader hbody
  have hskip : (p.skip t ts).lookup = p.lookup := rfl
  have houtcome := Construct.outcome_whole p.lookup t header.inner body.closed
  rw [hskip] at hread
  cases hloop : Loop.ofHeader p.lookup header.inner with
  | ok loop =>
    rw [hloop] at hread houtcome
    obtain ⟨r, hstep, hr, hforest⟩ := exists_step hp hrest hopen hread
    have hattached : r.forest.attached = p.forest.attached ++ [(t.location, body.closed)].map some := by
      rw [hforest]
      exact Forest.attached_withLoop hp.reached.linked hroot loop body.closed t.location
    rw [List.filterMap_cons_none (by simp [Construct.error?, houtcome]),
      List.filterMap_cons_some (b := (t.location, body.closed)) (by simp [Construct.loop?, houtcome, Except.toOption])]
    exact .step hstep _ hattached (hlater r hr)
  | error fault =>
    rw [hloop] at hread houtcome
    obtain ⟨r, hstop, hr, hforest⟩ := exists_stops hp hrest hopen hread
    rw [List.filterMap_cons_some (b := fault.error t.location) (by simp [Construct.error?, houtcome]),
      List.filterMap_cons_none (by simp [Construct.loop?, houtcome, Except.toOption])]
    exact .stop hstop hforest (hlater r hr)

end

/-- A sound parser scans to the end construct by construct. -/
theorem ends_constructs (options : Options) (lookup : Lookup) (tokens : List Token) {p : Parser} (hp : p.Sound)
    (hoptions : p.options = options) (hlookup : p.lookup = lookup) (hrest : p.cursor.rest = tokens) :
    p.Ends ((constructs options tokens).filterMap (·.error? lookup)) ((constructs options tokens).filterMap (·.loop? lookup)) := by
  -- the induction follows the cutting; whatever comes of a construct, the parser it leaves has the tokens to come that are cut next
  fun_induction constructs options tokens generalizing p with
  | case1 => exact .done hp hrest
  | case2 t ts hopen hheader =>
    subst hoptions hlookup
    exact ends_unfinished hp hrest hopen (parseConstruct_of_no_header t.location hheader) rfl
  | case3 t ts hopen header hheader hbody =>
    subst hoptions hlookup
    exact ends_unfinished hp hrest hopen (parseConstruct_of_no_body t.location hheader hbody) rfl
  | case4 t ts hopen header hheader body hbody ih =>
    subst hoptions hlookup
    exact ends_whole hp hrest hopen hheader hbody fun r hr => ih hr.sound hr.options hr.lookup hr.rest_eq
  | case5 t ts hopen ih =>
    have hpass : t.is p.options.keyword = false := hoptions ▸ Bool.eq_false_iff.mpr hopen
    exact .step (.pass hrest hpass) [] (List.append_nil _).symm (ih (hp.skip t ts) hoptions hlookup rfl)

/-- Scanning before the first of some tokens, again after each error, comes to an answer. There is one error for each construct that
is unfinished or has a header that is not read, in order, and one call more than there are errors; and the children of the root are
the loops of the other constructs, in order, each at the place of its keyword and with its body. -/
theorem scanTimes_constructs (tokens : List Token) (options : Options) (lookup : Lookup) :
    let cs := constructs options tokens
    let errors := cs.filterMap (·.error? lookup)
    (∃ q, scanTimes (errors.length + 1) (((ofTokens tokens).withOptions options).withLookup lookup) =
        (errors.map .error ++ [.ok Forest.root], q) ∧
      (q.forest.children Forest.root).map q.forest.loopAt? = (cs.filterMap (·.loop? lookup)).map some ∧
      (q.forest.children Forest.root).Nodup) ∧
    errors.length + 1 ≤ tokens.countP (·.is options.keyword) + 1 := by
  intro cs errors
  have hsound : (((ofTokens tokens).withOptions options).withLookup lookup).Sound := ⟨⟨[], rfl⟩, rfl, rfl⟩
  obtain ⟨q, hq, hscan, hloops⟩ := ends_constructs options lookup tokens hsound rfl rfl rfl
  refine ⟨⟨q, hscan, hloops, hq.reached.linked.nodup_children _⟩, Nat.succ_le_succ ?_⟩
  exact Nat.le_trans (List.length_filterMap_le _ _) (length_constructs_le options tokens)

end Parser

end LoopForest
