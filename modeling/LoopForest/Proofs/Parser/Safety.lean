import LoopForest.Proofs.Parser.Additions
import LoopForest.Proofs.Parser.Indexed

/-!
# Nothing ends a parser

Whatever tokens a parser is given and whatever is called on it, no access is out of bounds, the position stays within the tokens, and no
call answers with an error of the forest (`calls_safe`). The scan of `Checked.parseProgram` takes its tokens by index; it comes to
an end because a loop that is added passes its keyword, which is known from the agreement with the scan by cursor.

An error of the forest would have to come from a link that is refused. In a sound parser none is: the nodes a function refers to are the
ones it has just added (`Sound.noTreeError_answer`).
-/

namespace LoopForest

namespace Checked

open IndexedParser

/-! ## Constructs -/

section

variable {s : IndexedParser}

/-- Behind some of the tokens to come, the position is further by their number. -/
theorem view_moved {taken rest : List Token} (h : s.tokens.drop s.position = taken ++ rest) :
    ({ s with position := s.position + taken.length } : IndexedParser).view =
      { s.view with cursor := s.view.cursor.moveTo taken rest } := by
  have hpassed : s.tokens.take (s.position + taken.length) = s.tokens.take s.position ++ taken := by
    rw [List.take_add, h, List.take_left]
  have hrest : s.tokens.drop (s.position + taken.length) = rest := by
    rw [← List.drop_drop, h, List.drop_left]
  simp only [view, Cursor.ofPosition, Cursor.moveTo, hpassed, hrest, List.reverse_append]

theorem inBounds_moved (hs : s.InBounds) {taken rest : List Token} (h : s.tokens.drop s.position = taken ++ rest) :
    ({ s with position := s.position + taken.length } : IndexedParser).InBounds := by
  have hlength := congrArg List.length h
  rw [List.length_drop, List.length_append] at hlength
  unfold InBounds at hs ⊢
  change s.position + taken.length ≤ s.tokens.length
  omega

/-- Collecting cuts at the same token, and to the end of the tokens when there is none. -/
theorem collect_eq (enclosure : Enclosure) (depth : Nat) (hs : s.InBounds) :
    collect enclosure depth s =
      match enclosure.cut? s.options.matching depth (s.tokens.drop s.position) with
      | some cut => some (.ok (cut.inner, cut.closer), { s with position := s.position + cut.closed.length })
      | none =>
        let q : IndexedParser := { s with position := s.tokens.length }
        some (.error (.unterminated enclosure q.lastLocation), q) := by
  fun_induction collect enclosure depth s with
  | case1 depth s hend =>
    have heq : s.position = s.tokens.length := Nat.le_antisymm hs hend
    have hnil : s.tokens.drop s.position = [] := List.drop_eq_nil_of_le hend
    have hself : ({ s with position := s.tokens.length } : IndexedParser) = s := by rw [← heq]
    rw [hnil, Enclosure.cut?]
    simp only [hself]
  | case2 depth s hend hnone => exact absurd (List.getElem?_eq_none_iff.mp hnone) hend
  | case3 depth s hend t ht hstep =>
    have hrest := (view_advanced ht).1
    have hrest : s.tokens.drop s.position = t :: s.tokens.drop (s.position + 1) := hrest
    rw [hrest, Enclosure.cut?, hstep]
    rfl
  | case4 depth s hend t ht later hstep ih =>
    have hrest : s.tokens.drop s.position = t :: s.tokens.drop (s.position + 1) := (view_advanced ht).1
    have hih := ih (InBounds.advanced (Nat.lt_of_not_le hend))
    have hadvanced : s.advanced.tokens.drop s.advanced.position = s.tokens.drop (s.position + 1) := rfl
    have hoptions : s.advanced.options = s.options := rfl
    rw [hadvanced, hoptions] at hih
    have hcut : enclosure.cut? s.options.matching depth (s.tokens.drop s.position) =
        (enclosure.cut? s.options.matching later (s.tokens.drop (s.position + 1))).map fun c => { c with inner := t :: c.inner } := by
      rw [hrest, Enclosure.cut?, hstep]
    rw [hih, hcut]
    cases enclosure.cut? s.options.matching later (s.tokens.drop (s.position + 1)) with
    | none => rfl
    | some cut =>
      have hlength : s.position + 1 + cut.closed.length = s.position + (t :: cut.closed).length := by
        rw [List.length_cons]
        omega
      change some (_, { s with position := s.position + 1 + cut.closed.length }) = _
      rw [hlength]
      rfl

end

/-- What comes behind a construct agrees when it does not ask for the tokens behind it. -/
theorem agrees_collect_bind {β : Type} (enclosure : Enclosure) {f : List Token × Token → Checked β} {g : Enclosure.Cut → Action β}
    (h : ∀ cut, Agrees (f (cut.inner, cut.closer)) (g cut)) :
    Agrees ((collect enclosure 0 : Checked _) >>= f) (Action.enclosed enclosure >>= g) := by
  intro s hs
  have hcollect := collect_eq enclosure 0 hs
  rcases Action.enclosed_cases enclosure s.view with ⟨cut, hcut, heq⟩ | ⟨hnone, heq⟩
  · have hcut' : enclosure.cut? s.options.matching 0 (s.tokens.drop s.position) = some cut := hcut
    have happend := (Enclosure.cut?_append hcut').symm
    rw [hcut'] at hcollect
    obtain ⟨q, hq, hview, htokens, hin⟩ := h cut _ (inBounds_moved hs happend)
    rw [view_moved happend] at hq hview
    rw [Action.bind_of_ok heq]
    exact ⟨q, (bind_of_ok hcollect).trans hq, hview, htokens, hin⟩
  · have hnone' : enclosure.cut? s.options.matching 0 (s.tokens.drop s.position) = none := hnone
    have hview : ({ s with position := s.tokens.length } : IndexedParser).view = { s.view with cursor := s.view.cursor.toEnd } := by
      have hend := view_moved (s := s) (List.append_nil _).symm
      rwa [List.length_drop, Nat.add_sub_cancel' hs] at hend
    have hin : ({ s with position := s.tokens.length } : IndexedParser).InBounds := Nat.le_refl _
    have hlast : ({ s with position := s.tokens.length } : IndexedParser).lastLocation = s.view.cursor.toEnd.lastLocation := by
      rw [← hin.lastLocation_view, hview]
    rw [hnone'] at hcollect
    simp only [hlast] at hcollect
    rw [Action.bind_of_error heq]
    exact ⟨_, bind_of_error hcollect, hview, rfl, hin⟩

theorem agrees_parseConstruct (keyword : Location) : Agrees (parseConstruct keyword) (Parser.parseConstruct keyword) := by
  refine (agrees_emit _).bind fun _ => ?_
  refine agrees_collect_bind _ fun header => ?_
  refine agrees_collect_bind _ fun body => ?_
  refine (agrees_emit _).bind fun _ => ?_
  refine (agrees_parseLoop header.inner body.closed keyword).bind fun loop => ?_
  exact (agrees_emit _).bind fun _ => agrees_pure loop

theorem agrees_attach (loop : NodeId) : Agrees (attach loop) (Parser.attach loop) := by
  intro s hs
  have hview : s.view.forest = s.forest := rfl
  unfold attach Parser.attach
  rw [Forest.addChildAt?_eq, hview]
  cases s.forest.addChild Forest.root loop with
  | ok forest => exact ⟨_, rfl, rfl, rfl, hs⟩
  | error e => exact ⟨s, rfl, rfl, rfl, hs⟩

/-- A keyword is passed, and the loop behind it is added or taken back in the same way. -/
theorem exists_addLoop {s : IndexedParser} {t : Token} (ht : s.tokens[s.position]? = some t) :
    ∃ q, addLoop s = some ((Parser.addLoop t.location s.advanced.view).1, q) ∧
      q.view = (Parser.addLoop t.location s.advanced.view).2 ∧ q.tokens = s.tokens ∧ q.InBounds := by
  have hin : s.advanced.InBounds := InBounds.advanced (List.getElem?_eq_some_iff.mp ht).1
  have hadvance : advance s = some (.ok t, s.advanced) := by rw [advance, ht, Option.map_some]
  obtain ⟨q, hq, hview, htokens, hin'⟩ := agrees_parseConstruct t.location s.advanced hin
  have hread : (advance >>= fun keyword => parseConstruct keyword.location) s = some (_, q) := (bind_of_ok hadvance).trans hq
  have hforest : s.advanced.view.forest = s.forest := rfl
  unfold addLoop Parser.addLoop
  rw [hread]
  rcases hconstruct : Parser.parseConstruct t.location s.advanced.view with ⟨e | loop, p⟩ <;> rw [hconstruct] at hview
  · obtain rfl : q.view = p := hview
    exact ⟨{ q with forest := q.forest.truncate s.forest.size }, rfl, rfl, htokens, hin'⟩
  · obtain rfl : q.view = p := hview
    obtain ⟨r, hr, hview', htokens', hin''⟩ := agrees_attach loop q hin'
    exact ⟨r, hr, hview', htokens'.trans htokens, hin''⟩

/-- A loop that is added brings the position closer to the end of the tokens. -/
theorem position_lt_of_addLoop {s q : IndexedParser} {t : Token} {answer : Except ParseError Unit}
    (ht : s.tokens[s.position]? = some t) (h : addLoop s = some (answer, q)) :
    q.tokens.length - q.position < s.tokens.length - s.position := by
  obtain ⟨r, hr, hview, htokens, hin⟩ := exists_addLoop ht
  obtain rfl : q = r := (Prod.mk.inj (Option.some.inj (h.symm.trans hr))).2
  have hforward := Parser.forward_addLoop t.location s.advanced.view
  rw [← hview] at hforward
  have hrest : ∀ s : IndexedParser, s.view.cursor.rest.length = s.tokens.length - s.position := fun s => List.length_drop
  rw [hrest, hrest] at hforward
  have hlt := (List.getElem?_eq_some_iff.mp ht).1
  change _ ≤ s.tokens.length - (s.position + 1) at hforward
  omega

/-! ## Scans -/

/-- Scans from the position to the end of the tokens. -/
def parseProgram (s : IndexedParser) : Option (Except ParseError NodeId × IndexedParser) :=
  if s.tokens.length ≤ s.position then some (.ok Forest.root, s)
  else
    match _ : s.tokens[s.position]? with
    | none => none
    | some t =>
      if t.is s.options.keyword then
        match _ : addLoop s with
        | none => none
        | some (.error e, q) => some (.error e, q)
        | some (.ok (), q) => parseProgram q
      else parseProgram s.advanced
termination_by s.tokens.length - s.position
decreasing_by
  · have ht : s.tokens[s.position]? = some t := ‹_›
    have hadd : addLoop s = some (.ok (), q) := ‹_›
    exact position_lt_of_addLoop ht hadd
  · change s.tokens.length - (s.position + 1) < s.tokens.length - s.position
    omega

/-- A scan by index never ends the parser, and it is the scan by cursor. -/
theorem agrees_parseProgram : Agrees parseProgram Parser.parseProgram := by
  intro s hs
  fun_induction parseProgram s with
  | case1 s hend =>
    have hnil : s.view.cursor.rest = [] := List.drop_eq_nil_of_le hend
    rw [Parser.parseProgram_of_nil hnil]
    exact ⟨s, rfl, rfl, rfl, hs⟩
  | case2 s hend hnone => exact absurd (List.getElem?_eq_none_iff.mp hnone) hend
  | case3 s hend t ht hopen hnone =>
    obtain ⟨q, hq, -⟩ := exists_addLoop ht
    rw [hnone] at hq
    cases hq
  | case4 s hend t ht hopen e q hadd =>
    obtain ⟨hrest, hadvanced⟩ := view_advanced ht
    obtain ⟨r, hr, hview, htokens, hin⟩ := exists_addLoop ht
    obtain ⟨hanswer, rfl⟩ := Prod.mk.inj (Option.some.inj (hadd.symm.trans hr))
    have hstop : s.view.Stops e q.view := .intro hrest hopen (hadvanced ▸ Prod.ext hanswer.symm hview.symm)
    rw [hstop.parseProgram_eq]
    exact ⟨q, rfl, rfl, htokens, hin⟩
  | case5 s hend t ht hopen q hadd ih =>
    obtain ⟨hrest, hadvanced⟩ := view_advanced ht
    obtain ⟨r, hr, hview, htokens, hin⟩ := exists_addLoop ht
    obtain ⟨hanswer, rfl⟩ := Prod.mk.inj (Option.some.inj (hadd.symm.trans hr))
    have hstep : s.view.Step q.view := .add hrest hopen (hadvanced ▸ Prod.ext hanswer.symm hview.symm)
    obtain ⟨r, hr, hview', htokens', hin'⟩ := ih hin
    rw [hstep.parseProgram_eq]
    exact ⟨r, hr, hview', htokens'.trans htokens, hin'⟩
  | case6 s hend t ht hopen ih =>
    obtain ⟨hrest, hadvanced⟩ := view_advanced ht
    obtain ⟨r, hr, hview, htokens, hin⟩ := ih (InBounds.advanced (Nat.lt_of_not_le hend))
    have hstep : s.view.Step s.advanced.view := hadvanced ▸ .pass hrest (Bool.eq_false_iff.mpr hopen)
    rw [hstep.parseProgram_eq]
    exact ⟨r, hr, hview, htokens, hin⟩

end Checked

/-! ## Errors of the forest -/

/-- The answer is no error of the forest. -/
def NoTreeError {α : Type} (answer : Except ParseError α) : Prop := ∀ source location, answer ≠ .error (.tree source location)

theorem noTreeError_ok {α : Type} (a : α) : NoTreeError (.ok a : Except ParseError α) := nofun

theorem NoTreeError.map {α β : Type} {answer : Except ParseError α} (h : NoTreeError answer) (f : α → β) :
    NoTreeError (answer.map f) := by
  cases answer with
  | ok a => exact noTreeError_ok (f a)
  | error e =>
    intro source location heq
    exact h source location (congrArg Except.error (Except.error.inj heq))

/-- An error about a header is none of the forest. -/
theorem NoTreeError.of_ofHeader {α : Type} {e : ParseError} (he : e.OfHeader) : NoTreeError (.error e : Except ParseError α) := by
  intro source location htree
  rw [Except.error.inj htree] at he
  exact he

namespace Parser

/-- What a call answers: the number of a node, nothing when the call makes a choice, or why it stops. -/
def answer (p : Parser) : Call → Except ParseError (Option NodeId)
  | .withOptions _ | .withLookup _ => .ok none
  | .parseProgram => p.parseProgram.1.map some
  | .parseTarget tokens => (Parser.parseTarget tokens p).1.map some
  | .parseInitialization tokens => (Parser.parseInitialization tokens p).1.map some
  | .parseCondition tokens => (Parser.parseCondition tokens p).1.map some
  | .parseUpdate tokens => (Parser.parseUpdate tokens p).1.map some
  | .parseLoop header body location => (Parser.parseLoop header body location p).1.map some

/-- What some calls answer, made one after the other. -/
def answers (p : Parser) : List Call → List (Except ParseError (Option NodeId))
  | [] => []
  | call :: calls => p.answer call :: (p.after call).answers calls

theorem Sound.noTreeError_parseConstruct {p : Parser} (hp : p.Sound) (keyword : Location) :
    NoTreeError (parseConstruct keyword p).1 := by
  cases hheader : Enclosure.header.cut? p.options.matching 0 p.cursor.rest with
  | none =>
    rw [parseConstruct_of_no_header keyword hheader]
    nofun
  | some header =>
    cases hbody : Enclosure.body.cut? p.options.matching 0 header.rest with
    | none =>
      rw [parseConstruct_of_no_body keyword hheader hbody]
      nofun
    | some body =>
      rw [parseConstruct_of_cut hp.reached.root_lt_size hp.no_opener keyword hheader hbody]
      cases hloop : Loop.ofHeader p.lookup header.inner with
      | ok loop => exact noTreeError_ok _
      | error fault => exact .of_ofHeader (LoopFault.error_ofHeader hloop keyword)

/-- A scan stops with the error of the construct that cannot be read. -/
theorem Sound.noTreeError_parseProgram {p : Parser} (hp : p.Sound) : NoTreeError p.parseProgram.1 := by
  obtain ⟨q, hscan, ⟨-, heq⟩ | ⟨e, r, hstop, heq⟩⟩ := p.exists_scans
  · rw [heq]
    exact noTreeError_ok _
  · obtain @⟨t, rest, hrest, hopen, hadd⟩ := hstop
    have hskip := (hscan.sound hp).skip t rest
    obtain ⟨s, hconstruct, -⟩ := addLoop_eq_error hskip hadd
    have hno := hskip.noTreeError_parseConstruct t.location
    rw [hconstruct] at hno
    rw [heq]
    exact hno

/-- No call on a sound parser is refused a link. -/
theorem Sound.noTreeError_answer {p : Parser} (hp : p.Sound) (call : Call) : NoTreeError (p.answer call) := by
  have hroot := hp.reached.root_lt_size
  have hpart : ∀ parse ∈ [parseTarget, parseInitialization, parseCondition, parseUpdate], ∀ tokens,
      NoTreeError ((parse tokens p).1.map some) := fun parse hparse tokens => by
    refine NoTreeError.map ?_ some
    rcases part_cases hroot hparse tokens with ⟨id, a, heq, -⟩ | ⟨e, heq, he⟩ <;> rw [heq]
    · exact noTreeError_ok id
    · exact NoTreeError.of_ofHeader he
  cases call with
  | withOptions options => exact noTreeError_ok none
  | withLookup lookup => exact noTreeError_ok none
  | parseProgram => exact hp.noTreeError_parseProgram.map some
  | parseTarget tokens => exact hpart parseTarget (by simp) tokens
  | parseInitialization tokens => exact hpart parseInitialization (by simp) tokens
  | parseCondition tokens => exact hpart parseCondition (by simp) tokens
  | parseUpdate tokens => exact hpart parseUpdate (by simp) tokens
  | parseLoop header body location =>
    refine NoTreeError.map ?_ some
    rw [parseLoop_eq hroot hp.no_opener]
    cases hloop : Loop.ofHeader p.lookup header with
    | ok loop => exact noTreeError_ok _
    | error fault => exact .of_ofHeader (LoopFault.error_ofHeader hloop location)

theorem Sound.noTreeError_answers {p : Parser} (hp : p.Sound) (calls : List Call) :
    ∀ answer ∈ p.answers calls, NoTreeError answer := by
  induction calls generalizing p with
  | nil => exact nofun
  | cons call calls ih => exact List.forall_mem_cons.mpr ⟨hp.noTreeError_answer call, ih (hp.after call)⟩

end Parser

/-! ## Calls by index -/

namespace IndexedParser

/-- Makes a call, and gives its answer with the parser that is left. -/
def perform (s : IndexedParser) (call : Parser.Call) : Option (Except ParseError (Option NodeId) × IndexedParser) :=
  match call with
  | .withOptions options => some (.ok none, { s with options := options })
  | .withLookup lookup => some (.ok none, { s with lookup := lookup })
  | .parseProgram => (Checked.parseProgram s).map fun (answer, q) => (answer.map some, q)
  | .parseTarget tokens => (Checked.parseTarget tokens s).map fun (answer, q) => (answer.map some, q)
  | .parseInitialization tokens => (Checked.parseInitialization tokens s).map fun (answer, q) => (answer.map some, q)
  | .parseCondition tokens => (Checked.parseCondition tokens s).map fun (answer, q) => (answer.map some, q)
  | .parseUpdate tokens => (Checked.parseUpdate tokens s).map fun (answer, q) => (answer.map some, q)
  | .parseLoop header body location => (Checked.parseLoop header body location s).map fun (answer, q) => (answer.map some, q)

/-- Makes some calls one after the other. -/
def performAll (s : IndexedParser) : List Parser.Call → Option (List (Except ParseError (Option NodeId)) × IndexedParser)
  | [] => some ([], s)
  | call :: calls =>
    (s.perform call).bind fun (answer, q) => (performAll q calls).map fun (answers, r) => (answer :: answers, r)

/-- A call that answers with a node, when its function agrees. -/
theorem exists_perform_of_agrees {x : Checked NodeId} {y : Action NodeId} (h : Checked.Agrees x y) {s : IndexedParser}
    (hs : s.InBounds) :
    ∃ q, ((x s).map fun (answer, q) => (answer.map some, q)) = some ((y s.view).1.map some, q) ∧ q.view = (y s.view).2 ∧
      q.tokens = s.tokens ∧ q.InBounds := by
  obtain ⟨q, hq, hview, htokens, hin⟩ := h s hs
  refine ⟨q, ?_, hview, htokens, hin⟩
  rw [hq, Option.map_some]

theorem exists_perform {s : IndexedParser} (hs : s.InBounds) (call : Parser.Call) :
    ∃ q, s.perform call = some (s.view.answer call, q) ∧ q.view = s.view.after call ∧ q.tokens = s.tokens ∧ q.InBounds := by
  cases call with
  | withOptions options => exact ⟨_, rfl, rfl, rfl, hs⟩
  | withLookup lookup => exact ⟨_, rfl, rfl, rfl, hs⟩
  | parseProgram => exact exists_perform_of_agrees Checked.agrees_parseProgram hs
  | parseTarget tokens => exact exists_perform_of_agrees (Checked.agrees_parseTarget tokens) hs
  | parseInitialization tokens => exact exists_perform_of_agrees (Checked.agrees_parseInitialization tokens) hs
  | parseCondition tokens => exact exists_perform_of_agrees (Checked.agrees_parseCondition tokens) hs
  | parseUpdate tokens => exact exists_perform_of_agrees (Checked.agrees_parseUpdate tokens) hs
  | parseLoop header body location => exact exists_perform_of_agrees (Checked.agrees_parseLoop header body location) hs

theorem exists_performAll {s : IndexedParser} (hs : s.InBounds) (calls : List Parser.Call) :
    ∃ q, s.performAll calls = some (s.view.answers calls, q) ∧ q.view = s.view.run calls ∧ q.tokens = s.tokens ∧ q.InBounds := by
  induction calls generalizing s with
  | nil => exact ⟨s, rfl, rfl, rfl, hs⟩
  | cons call calls ih =>
    obtain ⟨q, hq, hview, htokens, hin⟩ := exists_perform hs call
    obtain ⟨r, hr, hview', htokens', hin'⟩ := ih hin
    rw [hview] at hr hview'
    refine ⟨r, ?_, hview', htokens'.trans htokens, hin'⟩
    simp only [performAll, hq, Option.bind_some, hr, Option.map_some]
    rfl

/-- Whatever tokens a parser is given and whatever calls are made on it, with whatever choices: every access is within bounds, so the
calls come to their answers; these and the parser that is left are those of the parser with a cursor; the tokens are what they
were, with the position among them or right behind; and no call answers with an error of the forest. -/
theorem calls_safe (tokens : List Token) (calls : List Parser.Call) :
    ∃ q, (ofTokens tokens).performAll calls = some ((Parser.ofTokens tokens).answers calls, q) ∧
      q.view = (Parser.ofTokens tokens).run calls ∧ q.tokens = tokens ∧ q.position ≤ tokens.length ∧
      ∀ answer ∈ (Parser.ofTokens tokens).answers calls, ∀ source location, answer ≠ .error (.tree source location) := by
  obtain ⟨q, hq, hview, htokens, hin⟩ := exists_performAll (s := ofTokens tokens) (Nat.zero_le _) calls
  have hposition : q.position ≤ q.tokens.length := hin
  rw [htokens] at hposition
  exact ⟨q, hq, hview, htokens, hposition, (Parser.Sound.ofTokens tokens).noTreeError_answers calls⟩

end IndexedParser

end LoopForest
