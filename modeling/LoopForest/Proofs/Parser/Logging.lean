import LoopForest.Proofs.Parser.Attempts

/-!
# What a scan writes into the log

A scan notices three things of a loop that it attaches: its keyword, how its header and body are cut out, and its node. Of the loop at
which it stops it notices the keyword, and the cut when there is one. `parseProgram_log` says that the log of a scan is just this, for
the loops the root has got, in their order, and then for the loop that stopped the scan. So a reader of the log knows which nodes there
are, and where the constructs of those nodes stand among the tokens.

One step of a scan writes the events of one loop or none (`Step.exists_logged`). Some steps write those of theirs one behind the other,
for constructs that stand one behind the other (`Logged.trans`).
-/

namespace LoopForest

/-! ## Constructs among tokens -/

namespace Cursor

/-- The tokens from the position on are those to come. -/
theorem drop_position (c : Cursor) : c.tokens.drop c.position = c.rest := by
  have hlength : c.position = c.passed.reverse.length := List.length_reverse.symm
  rw [tokens, hlength, List.drop_left]

/-- The next token, by number. -/
theorem getElem?_position {c : Cursor} {t : Token} {ts : List Token} (h : c.rest = t :: ts) : c.tokens[c.position]? = some t := by
  rw [← Nat.add_zero c.position, ← List.getElem?_drop, c.drop_position, h]
  rfl

/-- The tokens are those passed and those to come. -/
theorem length_tokens (c : Cursor) : c.tokens.length = c.position + c.rest.length := by
  rw [tokens, List.length_append, List.length_reverse, position]

@[simp] theorem position_moveTo (c : Cursor) (taken rest : List Token) :
    (c.moveTo taken rest).position = c.position + taken.length := by
  simp [position, moveTo, Nat.add_comm]

theorem tokens_moveTo {c : Cursor} {taken rest : List Token} (h : taken ++ rest = c.rest) :
    (c.moveTo taken rest).tokens = c.tokens := by
  simp [tokens, moveTo, ← h]

end Cursor

/-- A construct among tokens: where its keyword stands, the keyword, the header without the parenthesis that closes it, and the body
with the brace that closes it. -/
structure Extent where
  start : Nat
  keyword : Token
  header : List Token
  body : List Token
  deriving DecidableEq, Repr

namespace Extent

/-- Where the tokens behind a construct begin: it takes its keyword, the header with one more token, and the body. -/
def stop (x : Extent) : Nat := x.start + (x.header.length + 2 + x.body.length)

/-- What is noticed of a construct that is cut out. -/
def events (x : Extent) : List Event := [.found x.keyword.location, .delimited x.header.length x.body.length]

/-- The construct is there among the tokens: at its place a keyword opens a loop, and behind the keyword the delimiters cut out its
header and then its body. -/
inductive CutFrom (options : Options) (tokens : List Token) : Extent → Prop where
  | intro {start : Nat} {keyword : Token} {behind : List Token} {header body : Enclosure.Cut}
    (hstart : tokens.drop start = keyword :: behind) (hopen : keyword.value = options.keyword)
    (hheader : Enclosure.header.cut? options.matching 0 behind = some header)
    (hbody : Enclosure.body.cut? options.matching 0 header.rest = some body)
    (hstop : tokens.drop (start + (header.inner.length + 2 + body.closed.length)) = body.rest) :
    CutFrom options tokens ⟨start, keyword, header.inner, body.closed⟩

end Extent

/-- A construct that a scan has made a loop of, and the node of that loop. -/
structure Sighting extends Extent where
  loop : NodeId
  deriving DecidableEq, Repr

/-- What is noticed of a construct that becomes a loop. -/
def Sighting.events (s : Sighting) : List Event := s.toExtent.events ++ [.parsed s.loop]

namespace Parser

/-- The scan of the first parser has come to the second one, and on the way it has attached these loops and noticed nothing else. Their
constructs stand one behind the other between the two positions. -/
structure Logged (p q : Parser) (seen : List Sighting) : Prop where
  log_eq : q.log.toList = p.log.toList ++ seen.flatMap Sighting.events
  children_eq : q.forest.children Forest.root = p.forest.children Forest.root ++ seen.map Sighting.loop
  cutFrom : ∀ s ∈ seen, s.CutFrom p.options p.cursor.tokens
  loopAt? : ∀ s ∈ seen, s.loop < q.forest.size ∧ q.forest.loopAt? s.loop = some (s.keyword.location, s.body)
  ordered : seen.Pairwise fun s s' => s.stop ≤ s'.start
  between : ∀ s ∈ seen, p.cursor.position ≤ s.start ∧ s.stop ≤ q.cursor.position
  position_le : p.cursor.position ≤ q.cursor.position
  tokens_eq : q.cursor.tokens = p.cursor.tokens
  options_eq : q.options = p.options
  keeps : p.forest.Keeps q.forest

namespace Logged

variable {p q r : Parser} {seen more : List Sighting}

theorem refl (p : Parser) : p.Logged p [] where
  log_eq := (List.append_nil _).symm
  children_eq := (List.append_nil _).symm
  cutFrom := nofun
  loopAt? := nofun
  ordered := .nil
  between := nofun
  position_le := Nat.le_refl _
  tokens_eq := rfl
  options_eq := rfl
  keeps := ⟨Nat.le_refl _, fun _ _ => rfl, fun _ _ => rfl⟩

/-- What is noticed further on comes behind, and the loops attached before stay what they are. -/
theorem trans (hpq : p.Logged q seen) (hqr : q.Logged r more) : p.Logged r (seen ++ more) where
  log_eq := by rw [hqr.log_eq, hpq.log_eq, List.flatMap_append, List.append_assoc]
  children_eq := by rw [hqr.children_eq, hpq.children_eq, List.map_append, List.append_assoc]
  cutFrom := by
    have hmore := hqr.cutFrom
    rw [hpq.tokens_eq, hpq.options_eq] at hmore
    exact List.forall_mem_append.mpr ⟨hpq.cutFrom, hmore⟩
  loopAt? := by
    refine List.forall_mem_append.mpr ⟨fun s hs => ?_, hqr.loopAt?⟩
    obtain ⟨hlt, hloop⟩ := hpq.loopAt? s hs
    exact ⟨Nat.lt_of_lt_of_le hlt hqr.keeps.size_le, (hqr.keeps.loopAt?_eq hlt).trans hloop⟩
  ordered := by
    refine List.pairwise_append.mpr ⟨hpq.ordered, hqr.ordered, fun s hs s' hs' => ?_⟩
    exact Nat.le_trans (hpq.between s hs).2 (hqr.between s' hs').1
  between := by
    refine List.forall_mem_append.mpr ⟨fun s hs => ?_, fun s hs => ?_⟩
    · exact ⟨(hpq.between s hs).1, Nat.le_trans (hpq.between s hs).2 hqr.position_le⟩
    · exact ⟨Nat.le_trans hpq.position_le (hqr.between s hs).1, (hqr.between s hs).2⟩
  position_le := Nat.le_trans hpq.position_le hqr.position_le
  tokens_eq := hqr.tokens_eq.trans hpq.tokens_eq
  options_eq := hqr.options_eq.trans hpq.options_eq
  keeps := hpq.keeps.trans hqr.keeps

end Logged

/-! ## The log of a step -/

section

variable {p : Parser} {t : Token} {ts : List Token} {header body : Enclosure.Cut}

/-- The cursor behind a construct that is cut out: further by its keyword, its header with one more token, and its body. -/
theorem past_cursor (hrest : p.cursor.rest = t :: ts) (hheader : Enclosure.header.cut? p.options.matching 0 ts = some header)
    (hbody : Enclosure.body.cut? p.options.matching 0 header.rest = some body) :
    (p.past t ts header body).cursor.tokens = p.cursor.tokens ∧
      (p.past t ts header body).cursor.position = p.cursor.position + (header.inner.length + 2 + body.closed.length) := by
  have hskip : [t] ++ ts = p.cursor.rest := hrest.symm
  have hcut := Enclosure.cut?_append hheader
  have hcut' := Enclosure.cut?_append hbody
  constructor
  · calc (p.past t ts header body).cursor.tokens
        = ((p.cursor.moveTo [t] ts).moveTo header.closed header.rest).tokens := Cursor.tokens_moveTo hcut'
      _ = (p.cursor.moveTo [t] ts).tokens := Cursor.tokens_moveTo hcut
      _ = p.cursor.tokens := Cursor.tokens_moveTo hskip
  · have hposition : (p.past t ts header body).cursor.position =
        p.cursor.position + [t].length + header.closed.length + body.closed.length := by
      simp [past, behind, skip, withCursor]
    rw [hposition, Enclosure.Cut.closed, List.length_append, List.length_singleton, List.length_singleton]
    omega

/-- A construct that is cut out is there among the tokens, from the position on. -/
theorem cutFrom_of_cut (hrest : p.cursor.rest = t :: ts) (hopen : t.is p.options.keyword = true)
    (hheader : Enclosure.header.cut? p.options.matching 0 ts = some header)
    (hbody : Enclosure.body.cut? p.options.matching 0 header.rest = some body) :
    Extent.CutFrom p.options p.cursor.tokens ⟨p.cursor.position, t, header.inner, body.closed⟩ := by
  obtain ⟨htokens, hposition⟩ := past_cursor hrest hheader hbody
  refine .intro (p.cursor.drop_position.trans hrest) ((Token.is_eq_true_iff _ _).mp hopen) hheader hbody ?_
  rw [← htokens, ← hposition]
  exact Cursor.drop_position _

/-- A loop that is attached is noticed with its construct. -/
theorem logged_extended (hp : p.Sound) (hrest : p.cursor.rest = t :: ts) (hopen : t.is p.options.keyword = true)
    (hheader : Enclosure.header.cut? p.options.matching 0 ts = some header)
    (hbody : Enclosure.body.cut? p.options.matching 0 header.rest = some body) (l : Loop) :
    p.Logged (p.extended t ts header body l)
      [⟨⟨p.cursor.position, t, header.inner, body.closed⟩, p.forest.size + 5⟩] := by
  have hroot := hp.reached.root_lt_size
  obtain ⟨htokens, hposition⟩ := past_cursor hrest hheader hbody
  have hkeeps : p.forest.Keeps (p.forest.extend (.rootLoop l body.closed t.location)) :=
    (p.forest.keeps_withLoop l body.closed t.location).trans (.link _ _ _)
  have hloop : (p.forest.extend (.rootLoop l body.closed t.location)).loopAt? (p.forest.size + 5) =
      some (t.location, body.closed) := p.forest.loopAt?_withLoop l body.closed t.location
  have hlt : p.forest.size + 5 < (p.forest.extend (.rootLoop l body.closed t.location)).size := by
    simp [Forest.extend]
  refine ⟨?_, ?_, ?_, ?_, List.pairwise_singleton _ _, ?_, ?_, htokens, rfl, hkeeps⟩
  · simp [extended, past, behind, noting, withForest, withCursor, skip, Sighting.events, Extent.events]
  · exact Forest.children_root_extend hroot l body.closed t.location
  · exact List.forall_mem_singleton.mpr (cutFrom_of_cut hrest hopen hheader hbody)
  · exact List.forall_mem_singleton.mpr ⟨hlt, hloop⟩
  · exact List.forall_mem_singleton.mpr ⟨Nat.le_refl _, Nat.le_of_eq hposition.symm⟩
  · change p.cursor.position ≤ (p.past t ts header body).cursor.position
    rw [hposition]
    exact Nat.le_add_right _ _

end

/-- A step attaches one loop or none, and notices just that. -/
theorem Step.exists_logged {p q : Parser} (hp : p.Sound) (h : p.Step q) : ∃ seen, p.Logged q seen := by
  cases h with
  | @pass t ts hrest hopen =>
    have hposition : (p.skip t ts).cursor.position = p.cursor.position + 1 := Cursor.position_moveTo _ _ _
    refine ⟨[], { Logged.refl p with position_le := ?_, tokens_eq := skip_tokens hrest, between := nofun }⟩
    rw [hposition]
    exact Nat.le_succ _
  | @add t ts _ hrest hopen hadd =>
    cases (addLoop_eq_iff hp).mp hadd with
    | loop hheader hbody hloop => exact ⟨_, logged_extended hp hrest hopen hheader hbody _⟩

/-- Some steps attach some loops, and notice just these. -/
theorem Scans.exists_logged {p q : Parser} (hp : p.Sound) (h : p.Scans q) : ∃ seen, p.Logged q seen := by
  induction h with
  | refl => exact ⟨[], .refl _⟩
  | step hstep _ ih =>
    obtain ⟨first, hfirst⟩ := hstep.exists_logged hp
    obtain ⟨more, hmore⟩ := ih (hstep.sound hp)
    exact ⟨first ++ more, hfirst.trans hmore⟩

/-- The construct at which a scan stops has its keyword among the tokens, from the position on. -/
theorem StopsAt.exists_keyword {p q : Parser} {start : Nat} {e : ParseError} (hp : p.Sound) (h : p.StopsAt start e q) :
    p.cursor.position ≤ start ∧ ∃ keyword, p.cursor.tokens[start]? = some keyword ∧ keyword.value = p.options.keyword := by
  obtain ⟨stop, hscan, rfl, hrest, hopen, -⟩ := h
  obtain ⟨seen, hseen⟩ := hscan.exists_logged hp
  have hkeyword := Cursor.getElem?_position hrest
  rw [hseen.tokens_eq] at hkeyword
  rw [hseen.options_eq] at hopen
  exact ⟨hseen.position_le, _, hkeyword, (Token.is_eq_true_iff _ _).mp hopen⟩

/-! ## The log of a scan -/

/-- What is noticed where a scan ends, when it has come as far as `position`: nothing when there is no token left, only the keyword of
a construct that does not end, and the cut as well of a construct that ends and has a header which is not that of a loop. -/
inductive LastNoticed (p : Parser) (position : Nat) : Except ParseError NodeId → List Event → Prop where
  | nothing : LastNoticed p position (.ok Forest.root) []
  | keyword {start : Nat} {keyword : Token} {enclosure : Enclosure} {location : Location} (hle : position ≤ start)
    (hstart : p.cursor.tokens[start]? = some keyword) (hopen : keyword.value = p.options.keyword) :
    LastNoticed p position (.error (.unterminated enclosure location)) [.found keyword.location]
  | construct {x : Extent} {e : ParseError} (hle : position ≤ x.start) (hcut : x.CutFrom p.options p.cursor.tokens)
    (he : e.OfHeader) : LastNoticed p position (.error e) x.events

/-- Where a scan stops it notices what there is of the construct, and the root gets nothing. -/
theorem Stops.exists_noticed {p q : Parser} {e : ParseError} (hp : p.Sound) (h : p.Stops e q) :
    ∃ last, q.log.toList = p.log.toList ++ last ∧ q.forest = p.forest ∧ p.LastNoticed p.cursor.position (.error e) last := by
  obtain @⟨t, ts, hrest, hopen, hadd⟩ := h
  have hkeyword : t.value = p.options.keyword := (Token.is_eq_true_iff _ _).mp hopen
  have hstart : p.cursor.tokens[p.cursor.position]? = some t := Cursor.getElem?_position hrest
  cases (addLoop_eq_iff hp).mp hadd with
  | noHeader hheader => exact ⟨[.found t.location], Array.toList_push, rfl, .keyword (Nat.le_refl _) hstart hkeyword⟩
  | noBody hheader hbody => exact ⟨[.found t.location], Array.toList_push, rfl, .keyword (Nat.le_refl _) hstart hkeyword⟩
  | @fault header body fault hheader hbody hloop =>
    refine ⟨_, ?_, rfl, .construct (Nat.le_refl _) (cutFrom_of_cut hrest hopen hheader hbody) (LoopFault.error_ofHeader hloop _)⟩
    simp [past, behind, noting, withCursor, skip, Extent.events]

/-- The log of a scan of a parser in use. The root gets some loops, and the log gets, for each of them in order: the keyword's place,
which is that of the node; how many tokens the header and the body have, where the body is that of the node; and the node. The loops
come of constructs that stand among the tokens one behind the other, from the position on, each as long as its header, its body and two
more tokens. Behind that the log gets nothing when the scan answers, the keyword's place when it stops at a construct that does not
end, and the keyword's place and the two counts when it stops with any other error. -/
theorem parseProgram_log {p : Parser} (hp : p.Reached) :
    let q := p.parseProgram.2
    ∃ (seen : List Sighting) (last : List Event) (position : Nat),
      q.log.toList = p.log.toList ++ seen.flatMap (fun s =>
        [.found s.keyword.location, .delimited s.header.length s.body.length, .parsed s.loop]) ++ last ∧
      q.forest.children Forest.root = p.forest.children Forest.root ++ seen.map Sighting.loop ∧
      (∀ s ∈ seen, q.forest.loopAt? s.loop = some (s.keyword.location, s.body) ∧ s.CutFrom p.options p.cursor.tokens ∧
        p.cursor.position ≤ s.start ∧ s.start + (s.header.length + 2 + s.body.length) ≤ position) ∧
      seen.Pairwise (fun s s' => s.start + (s.header.length + 2 + s.body.length) ≤ s'.start) ∧
      p.LastNoticed position p.parseProgram.1 last := by
  intro q
  obtain ⟨r, hscan, hend⟩ := p.exists_scans
  obtain ⟨seen, hseen⟩ := hscan.exists_logged hp.sound
  have hloops : ∀ s ∈ seen, r.forest.loopAt? s.loop = some (s.keyword.location, s.body) ∧ s.CutFrom p.options p.cursor.tokens ∧
      p.cursor.position ≤ s.start ∧ s.stop ≤ r.cursor.position := fun s hs =>
    ⟨(hseen.loopAt? s hs).2, hseen.cutFrom s hs, hseen.between s hs⟩
  rcases hend with ⟨-, heq⟩ | ⟨e, r', hstop, heq⟩
  · have hq : q = r := congrArg Prod.snd heq
    rw [hq, heq]
    refine ⟨seen, [], r.cursor.position, ?_, hseen.children_eq, hloops, hseen.ordered, .nothing⟩
    rw [List.append_nil]
    exact hseen.log_eq
  · obtain ⟨last, hlog, hforest, hlast⟩ := hstop.exists_noticed (hscan.sound hp.sound)
    have hq : q = r' := congrArg Prod.snd heq
    rw [hq, heq, hforest]
    refine ⟨seen, last, r.cursor.position, ?_, hseen.children_eq, hloops, hseen.ordered, ?_⟩
    · rw [hlog, hseen.log_eq]
      rfl
    · cases hlast with
      | keyword hle hstart hopen =>
        rw [hseen.tokens_eq] at hstart
        rw [hseen.options_eq] at hopen
        exact .keyword hle hstart hopen
      | construct hle hcut he =>
        rw [hseen.tokens_eq, hseen.options_eq] at hcut
        exact .construct hle hcut he

/-- The statement at a parser that scans to a second loop without a condition: the first loop is noticed with its node, the second one
only as far as it was cut out. -/
theorem parseProgram_log_secondLoopBroken :
    let tokens : List Token := ["x", "for", "(", "i", "=", "0", ";", "i", "<", "1", ";", "i++", ")", "\x7b", "x", "\x7d", "y",
      "for", "(", "j", "=", "0", ";", ";", "j++", ")", "\x7b", "\x7d"].mapIdx fun i text => ⟨.identifier, text, ⟨1, i + 1⟩⟩
    let p := ofTokens tokens
    let q := p.parseProgram.2
    p.Reached ∧
      q.log.toList = [.found ⟨1, 2⟩, .delimited 10 3, .parsed 6, .found ⟨1, 18⟩, .delimited 7 2] ∧
      ∃ (seen : List Sighting) (last : List Event) (position : Nat),
        q.log.toList = seen.flatMap (fun s =>
          [.found s.keyword.location, .delimited s.header.length s.body.length, .parsed s.loop]) ++ last ∧
        seen.map Sighting.loop = [6] ∧ (∀ s ∈ seen, s.CutFrom p.options tokens) ∧
        p.LastNoticed position p.parseProgram.1 last := by
  intro tokens p q
  have hp : p.Reached := ⟨tokens, [], rfl⟩
  have hlog : q.log.toList = [.found ⟨1, 2⟩, .delimited 10 3, .parsed 6, .found ⟨1, 18⟩, .delimited 7 2] := by decide +kernel
  have hroot : q.forest.children Forest.root = [6] := by decide +kernel
  obtain ⟨seen, last, position, hevents, hchildren, hloops, -, hlast⟩ := parseProgram_log hp
  have hseen : seen.map Sighting.loop = [6] := hchildren.symm.trans hroot
  exact ⟨hp, hlog, seen, last, position, hevents, hseen, fun s hs => (hloops s hs).2.1, hlast⟩

end Parser

end LoopForest
