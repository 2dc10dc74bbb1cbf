import LoopForest.Proofs.Parser.Likeness

/-!
# Scanning goes by texts

Two parsers before tokens with the same texts, with the same choices and a lookup that goes by texts, do the same: call by call they
answer or stop together, with errors that tell the same and show at the same token, and they stand at the same token afterwards. Their
forests have the same bare form, so they render to the same lines (`scanTimes_wording`). No kind of a token and no place decides anything.

The two scans are taken side by side. The parsers are related by `InStep`, which every step keeps: their cursors pass alike tokens, and
what is added to the two forests says the same.
-/

namespace LoopForest

/-- Cursors that have passed alike tokens and have alike tokens to come. -/
structure Cursor.Alike (all all' : List Token) (c c' : Cursor) : Prop where
  passed : List.Forall₂ (Token.Alike all all') c.passed c'.passed
  rest : List.Forall₂ (Token.Alike all all') c.rest c'.rest

theorem Cursor.Alike.moveTo {all all' : List Token} {c c' : Cursor} (h : c.Alike all all' c') {taken taken' rest rest' : List Token}
    (htaken : List.Forall₂ (Token.Alike all all') taken taken') (hrest : List.Forall₂ (Token.Alike all all') rest rest') :
    (c.moveTo taken rest).Alike all all' (c'.moveTo taken' rest') :=
  ⟨List.rel_append (List.rel_reverse htaken) h.passed, hrest⟩

namespace Forest

/-! ## Loops in a bare forest -/

/-- A loop and its bare form are built into the same bare forest. -/
theorem bare_withLoop (f : Forest) (l : Loop) (body : List Token) (location : Location) :
    (f.withLoop l body location).bare = f.bare.withLoop l.bare (body.map Token.bare) default := by
  simp only [withLoop, withClauses, withInitialization, withCondition, withUpdate, bare_withNode, size_bare, size_withNode]
  rfl

theorem bare_extend (f : Forest) (l : Loop) (body : List Token) (location : Location) :
    (f.extend (.rootLoop l body location)).bare = f.bare.extend (.rootLoop l.bare (body.map Token.bare) default) := by
  rw [extend, bare_link, bare_withLoop, extend, size_bare]

end Forest

namespace Parser

section

variable {all all' : List Token}

/-- The two parsers have the same choices, their cursors are alike, and their forests have the same bare form. -/
structure InStep (all all' : List Token) (p p' : Parser) : Prop where
  options : p'.options = p.options
  lookup : p'.lookup = p.lookup
  byText : p.lookup.ByText
  cursor : p.cursor.Alike all all' p'.cursor
  bare_eq : p.forest.bare = p'.forest.bare
  sound : p.Sound
  sound' : p'.Sound

namespace InStep

variable {p p' : Parser} {t t' : Token} {ts ts' : List Token}

theorem skip (h : p.InStep all all' p') (ht : t.Alike all all' t') (hts : List.Forall₂ (Token.Alike all all') ts ts') :
    (p.skip t ts).InStep all all' (p'.skip t' ts') where
  options := h.options
  lookup := h.lookup
  byText := h.byText
  cursor := h.cursor.moveTo (.cons ht .nil) hts
  bare_eq := h.bare_eq
  sound := h.sound.skip t ts
  sound' := h.sound'.skip t' ts'

/-- A construct that is cut out of alike tokens is cut out of both, and both parsers go on behind it. -/
theorem exists_past (h : p.InStep all all' p') (ht : t.Alike all all' t') (hts : List.Forall₂ (Token.Alike all all') ts ts')
    {header body : Enclosure.Cut} (hheader : Enclosure.header.cut? p.options.matching 0 ts = some header)
    (hbody : Enclosure.body.cut? p.options.matching 0 header.rest = some body) :
    ∃ header' body', Enclosure.header.cut? p'.options.matching 0 ts' = some header' ∧
      Enclosure.body.cut? p'.options.matching 0 header'.rest = some body' ∧ header.Alike all all' header' ∧
      body.Alike all all' body' ∧ (p.past t ts header body).cursor.Alike all all' (p'.past t' ts' header' body').cursor := by
  obtain ⟨header', hheader', hcut⟩ := Enclosure.exists_alike_cut? hts hheader
  obtain ⟨body', hbody', hcut'⟩ := Enclosure.exists_alike_cut? hcut.rest hbody
  rw [← h.options] at hheader' hbody'
  have hcursor := ((h.skip ht hts).cursor.moveTo hcut.closed hcut.rest).moveTo hcut'.closed hcut'.rest
  exact ⟨header', body', hheader', hbody', hcut, hcut', hcursor⟩

/-- With alike tokens to come a loop is tried in the same way. -/
theorem exists_triedBy (h : p.InStep all all' p') (ht : t.Alike all all' t') (hts : List.Forall₂ (Token.Alike all all') ts ts')
    {answer : Except ParseError Unit} {q : Parser} (htried : p.TriedBy t ts (answer, q)) :
    ∃ answer' q', p'.TriedBy t' ts' (answer', q') ∧ Parallel (ParseError.Alike all all') Eq answer answer' ∧
      (q.Sound → q'.Sound → q.InStep all all' q') := by
  have hend : (p.skip t ts).cursor.toEnd.Alike all all' (p'.skip t' ts').cursor.toEnd := (h.skip ht hts).cursor.moveTo hts .nil
  have hlast := alike_getLast ht hts
  -- the way to go is decided by the two cuts and by what the header says, and alike tokens agree in each
  cases htried with
  | noHeader hheader =>
    have hheader' := Enclosure.cut?_eq_none_of_alike hts hheader
    rw [← h.options] at hheader'
    exact ⟨_, _, .noHeader hheader', .error (.unterminated hlast),
      fun hq hq' => ⟨h.options, h.lookup, h.byText, hend, h.bare_eq, hq, hq'⟩⟩
  | noBody hheader hbody =>
    obtain ⟨header', hheader', hcut⟩ := Enclosure.exists_alike_cut? hts hheader
    have hbody' := Enclosure.cut?_eq_none_of_alike hcut.rest hbody
    rw [← h.options] at hheader' hbody'
    exact ⟨_, _, .noBody hheader' hbody', .error (.unterminated hlast),
      fun hq hq' => ⟨h.options, h.lookup, h.byText, hend, h.bare_eq, hq, hq'⟩⟩
  | fault hheader hbody hloop =>
    obtain ⟨header', body', hheader', hbody', hcut, hcut', hcursor⟩ := h.exists_past ht hts hheader hbody
    obtain ⟨_, _, hread, -⟩ | ⟨fault, fault', hread, hread', he⟩ := (Loop.alike_ofHeader h.byText hcut.inner ht).exists_eq
    · rw [hloop] at hread
      cases hread
    · obtain rfl := Except.error.inj (hloop.symm.trans hread)
      rw [← h.lookup] at hread'
      exact ⟨_, _, .fault hheader' hbody' hread', .error he,
        fun hq hq' => ⟨h.options, h.lookup, h.byText, hcursor, h.bare_eq, hq, hq'⟩⟩
  | loop hheader hbody hloop =>
    obtain ⟨header', body', hheader', hbody', hcut, hcut', hcursor⟩ := h.exists_past ht hts hheader hbody
    obtain ⟨l, l', hread, hread', hl⟩ | ⟨_, _, hread, -⟩ := (Loop.alike_ofHeader h.byText hcut.inner ht).exists_eq
    · obtain rfl := Except.ok.inj (hloop.symm.trans hread)
      rw [← h.lookup] at hread'
      refine ⟨_, _, .loop hheader' hbody' hread', .ok rfl, fun hq hq' => ⟨h.options, h.lookup, h.byText, hcursor, ?_, hq, hq'⟩⟩
      change (p.forest.extend (.rootLoop _ _ _)).bare = (p'.forest.extend (.rootLoop _ _ _)).bare
      rw [Forest.bare_extend, Forest.bare_extend, h.bare_eq, hl, map_bare_eq hcut'.closed]
    · rw [hloop] at hread
      cases hread

/-- Parsers in step make their steps together and stop together. -/
theorem simulation (all all' : List Token) : Simulation (Token.Alike all all') (ParseError.Alike all all') (InStep all all') where
  sound h := ⟨h.sound, h.sound'⟩
  rest h := h.cursor.rest
  opens h ht := by
    rw [ht.is_eq, h.options]
  skip h := h.skip
  tried h ht hts htried := h.exists_triedBy ht hts htried

end InStep

end

/-- Parsers before tokens with the same texts are in step. -/
theorem inStep_start {tokens tokens' : List Token} (h : tokens.map (·.value) = tokens'.map (·.value)) (options : Options)
    {lookup : Lookup} (hlookup : lookup.ByText) :
    InStep tokens tokens' (start options lookup tokens) (start options lookup tokens') where
  options := rfl
  lookup := rfl
  byText := hlookup
  cursor := ⟨.nil, alike_of_values h⟩
  bare_eq := rfl
  sound := .start options lookup tokens
  sound' := .start options lookup tokens'

/-- Scanning goes by texts. Before tokens that have the same texts, index by index, and with the same choices, scans made one after the
other have the same outcomes: two answers, or two errors of one kind that show at tokens of the same index. After as many scans as one
likes the cursors stand at the same place, and the forests are the same but for the places of nodes and for the kinds and places of the
tokens in conditions and bodies; so every node renders to the same lines. The lookup must go by texts, too, and the one for relational
operators does. -/
theorem scanTimes_wording {tokens tokens' : List Token} (h : tokens.map (·.value) = tokens'.map (·.value)) (options : Options)
    (count : Nat) :
    Lookup.relational.ByText ∧ ∀ lookup : Lookup, lookup.ByText →
      let scans := scanTimes count (start options lookup tokens)
      let scans' := scanTimes count (start options lookup tokens')
      List.Forall₂ (Parallel (ParseError.Alike tokens tokens') Eq) scans.1 scans'.1 ∧
        scans.2.cursor.position = scans'.2.cursor.position ∧ scans.2.forest.bare = scans'.2.forest.bare ∧
        ∀ id level, scans.2.forest.render id level = scans'.2.forest.render id level := by
  refine ⟨Lookup.byText_relational, fun lookup hlookup => ?_⟩
  -- the relation of the two parsers holds at the start and is kept by every scan, so all that is claimed can be read off it
  obtain ⟨hanswers, hend⟩ := (InStep.simulation tokens tokens').scanTimes (inStep_start h options hlookup) count
  refine ⟨hanswers, hend.cursor.passed.length_eq, hend.bare_eq, fun id level => ?_⟩
  rw [← Forest.render_bare, hend.bare_eq, Forest.render_bare]

/-- The statement at words on one line and at literals without places, which are a loop without a parenthesis and a whole one. The
forests are not equal. -/
theorem scanTimes_wording_literals :
    let texts := ["for", "x", ")", "\x7b", "\x7d", "for", "(", "i", "=", "0", ";", "i", "<", "1", ";", "i++", ")", "\x7b", "x", "\x7d"]
    let tokens : List Token := texts.mapIdx fun i text => ⟨.identifier, text, ⟨1, i + 1⟩⟩
    let tokens' : List Token := texts.map fun text => ⟨.literal, text, default⟩
    let scans := scanTimes 2 (ofTokens tokens)
    let scans' := scanTimes 2 (ofTokens tokens')
    tokens.map (·.value) = tokens'.map (·.value) ∧ Lookup.relational.ByText ∧ scans.1.map (·.isOk) = [false, true] ∧
      scans.2.forest ≠ scans'.2.forest ∧ List.Forall₂ (Parallel (ParseError.Alike tokens tokens') Eq) scans.1 scans'.1 ∧
      scans.2.cursor.position = scans'.2.cursor.position ∧ scans.2.forest.bare = scans'.2.forest.bare ∧
      scans.2.forest.render Forest.root 0 = scans'.2.forest.render Forest.root 0 := by
  intro texts tokens tokens' scans scans'
  have hvalues : tokens.map (·.value) = tokens'.map (·.value) := by decide +kernel
  have hok : scans.1.map (·.isOk) = [false, true] := by decide +kernel
  have hne : scans.2.forest ≠ scans'.2.forest := by decide +kernel
  obtain ⟨hrelational, hscans⟩ := scanTimes_wording hvalues {} 2
  obtain ⟨hanswers, hposition, hbare, hrender⟩ := hscans .relational hrelational
  exact ⟨hvalues, hrelational, hok, hne, hanswers, hposition, hbare, hrender Forest.root 0⟩

end Parser

end LoopForest
