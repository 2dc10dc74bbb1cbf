import LoopForest.Proofs.Loop.Delimiters
import LoopForest.Proofs.Parser.Attempts

/-!
# Cutting out headers and bodies

A parser that matches delimiters passes the shortest beginning of the tokens to come that closes as much as it opens, and when there is
none it stops behind the last token (`enclosed_shortest`). Of what it passed, a header is all but the last token and a body is all.

A parser that does not match them passes a beginning of that, and the same when it opens no more than one delimiter. So a scan without
matching that never collects more than one opening delimiter is also the scan with matching (`matchings_agree`). This is a condition on
the one scan alone: what the other one would collect need not be known. The two scans are taken step by step, and each step of the first
is one of the second, from the same tokens to the same ones (`Step.matched`).
-/

namespace LoopForest

/-- Behind all tokens, the token passed last is the last one of all. -/
theorem Cursor.exists_last_toEnd {c : Cursor} (h : c.passed ≠ []) :
    ∃ t ∈ c.tokens.getLast?, c.toEnd.lastLocation = t.location := by
  obtain ⟨t, ts, hpassed⟩ := List.exists_cons_of_ne_nil h
  refine ⟨c.rest.getLast?.getD t, ?_, lastLocation_toEnd (by rw [hpassed]; rfl)⟩
  rw [tokens, hpassed, List.getLast?_append, List.getLast?_reverse]
  cases c.rest.getLast? <;> rfl

namespace Parser

open Action

/-! ## Matched delimiters -/

section

variable {p : Parser} {enclosure : Enclosure}

theorem enclosed_eq_ok_iff {cut : Enclosure.Cut} {q : Parser} :
    enclosed enclosure p = (.ok cut, q) ↔
      enclosure.cut? p.options.matching 0 p.cursor.rest = some cut ∧
        q = { p with cursor := p.cursor.moveTo cut.closed cut.rest } := by
  constructor
  · intro h
    rcases enclosed_cases enclosure p with ⟨cut', hcut, heq⟩ | ⟨-, heq⟩
    · rw [heq] at h
      obtain ⟨hc, rfl⟩ := Prod.mk.inj h
      obtain rfl := Except.ok.inj hc
      exact ⟨hcut, rfl⟩
    · rw [heq] at h
      cases h
  · rintro ⟨hcut, rfl⟩
    exact enclosed_of_some hcut

theorem enclosed_eq_error_iff {e : ParseError} {q : Parser} :
    enclosed enclosure p = (.error e, q) ↔
      enclosure.cut? p.options.matching 0 p.cursor.rest = none ∧
        e = .unterminated enclosure p.cursor.toEnd.lastLocation ∧ q = { p with cursor := p.cursor.toEnd } := by
  constructor
  · intro h
    rcases enclosed_cases enclosure p with ⟨cut', -, heq⟩ | ⟨hcut, heq⟩
    · rw [heq] at h
      cases h
    · rw [heq] at h
      obtain ⟨he, rfl⟩ := Prod.mk.inj h
      obtain rfl := Except.error.inj he
      exact ⟨hcut, rfl, rfl⟩
  · rintro ⟨hcut, rfl, rfl⟩
    exact enclosed_of_none hcut

end

/-- A parser that matches delimiters and has passed a token cuts out the shortest beginning of the tokens to come that ends with a
closing delimiter and closes at least as many as it opens. It goes behind these tokens and changes in nothing else. Of the cut, `inner`
is all but the last token, which is what a header is, and `closed` is all of it, which is what a body is. When there is no such beginning
the parser stops, behind all tokens, and the error shows at the last of these. In particular balanced tokens between two delimiters are
cut out with these. -/
theorem enclosed_shortest {p : Parser} (hpassed : p.cursor.passed ≠ []) (hmatching : p.options.matching = .balanced) :
    ∀ enclosure ∈ [Enclosure.header, Enclosure.body],
      (∀ cut q, enclosed enclosure p = (.ok cut, q) ↔
        cut.closed ++ cut.rest = p.cursor.rest ∧ Shortest enclosure.Closes cut.closed p.cursor.rest ∧
          q = { p with cursor := p.cursor.moveTo cut.closed cut.rest }) ∧
      (∀ e q, enclosed enclosure p = (.error e, q) ↔
        (∀ before, before <+: p.cursor.rest → ¬ enclosure.Closes before) ∧
          (∃ last ∈ p.cursor.tokens.getLast?, e = .unterminated enclosure last.location) ∧
          q = { p with cursor := p.cursor.toEnd }) ∧
      ∀ opener inner closer rest, p.cursor.rest = opener :: (inner ++ closer :: rest) → opener.value = enclosure.opening →
        closer.value = enclosure.closing → enclosure.Balanced inner →
        enclosed enclosure p =
          (.ok ⟨opener :: inner, closer, rest⟩, { p with cursor := p.cursor.moveTo (opener :: inner ++ [closer]) rest }) := by
  intro enclosure henclosure
  have hne := Enclosure.opening_ne_closing henclosure
  have hends : enclosure.Ends .balanced 0 = enclosure.Closes := funext fun ts => propext Enclosure.ends_balanced_iff
  obtain ⟨last, hlast, hlocation⟩ := Cursor.exists_last_toEnd hpassed
  refine ⟨fun cut q => ?_, fun e q => ?_, fun opener inner closer rest hrest hopener hcloser hinner => ?_⟩
  · rw [enclosed_eq_ok_iff, hmatching, Enclosure.cut?_eq_some_iff hne, hends, and_assoc]
  · rw [enclosed_eq_error_iff, hmatching, Enclosure.cut?_eq_none_iff hne, hends, hlocation]
    refine and_congr_right fun _ => and_congr_left fun _ => ⟨fun he => ⟨last, hlast, he⟩, ?_⟩
    rintro ⟨last', hlast', rfl⟩
    rw [Option.mem_unique hlast hlast']
  · refine enclosed_of_some ?_
    rw [hmatching, hrest]
    exact Enclosure.cut?_enclosed hne hopener hcloser hinner rest

/-- Tokens behind a keyword: nested parentheses, a stray closing one, and no closing brace. -/
def nestedParentheses : Parser :=
  let token text : Token := ⟨.punctuation, text, ⟨1, 1⟩⟩
  { cursor := ⟨[token "for"], ["(", "a", "(", ")", ")", ")", "\x7b", "\x7b"].map token⟩ }

theorem enclosed_shortest_nestedParentheses :
    let token text : Token := ⟨.punctuation, text, ⟨1, 1⟩⟩
    let p := nestedParentheses
    let header := ["(", "a", "(", ")"].map token
    let rest := [")", "\x7b", "\x7b"].map token
    p.cursor.passed ≠ [] ∧ p.options.matching = .balanced ∧
      Shortest Enclosure.header.Closes (header ++ [token ")"]) p.cursor.rest ∧
      (∀ before, before <+: p.cursor.rest → ¬ Enclosure.body.Closes before) ∧
      Enclosure.header.Balanced (["a", "(", ")"].map token) ∧
      enclosed .header p = (.ok ⟨header, token ")", rest⟩, { p with cursor := p.cursor.moveTo (header ++ [token ")"]) rest }) ∧
      enclosed .body p = (.error (.unterminated .body ⟨1, 1⟩), { p with cursor := p.cursor.toEnd }) := by
  intro token p header rest
  have hpassed : p.cursor.passed ≠ [] := by decide
  have hmatching : p.options.matching = .balanced := rfl
  have hinner : Enclosure.header.Balanced (["a", "(", ")"].map token) := by decide
  obtain ⟨hcut, -, hbalanced⟩ := enclosed_shortest hpassed hmatching .header (by decide)
  obtain ⟨-, hend, -⟩ := enclosed_shortest hpassed hmatching .body (by decide)
  have hheader := hbalanced (token "(") (["a", "(", ")"].map token) (token ")") rest rfl rfl rfl hinner
  have hbody : enclosed .body p = (.error (.unterminated .body ⟨1, 1⟩), { p with cursor := p.cursor.toEnd }) := rfl
  obtain ⟨-, hshortest, -⟩ := (hcut _ _).mp hheader
  obtain ⟨hnone, -, -⟩ := (hend _ _).mp hbody
  exact ⟨hpassed, hmatching, hshortest, hnone, hinner, hheader, hbody⟩

/-! ## Delimiters that are not matched -/

/-- A scan of the parser collects the tokens as a header or as a body. It comes to a keyword behind which the header ends, and for a body
the body behind the header ends, too. -/
inductive Collects (p : Parser) : Enclosure → List Token → Prop where
  | header {q : Parser} {t : Token} {ts : List Token} {header : Enclosure.Cut} (hscan : p.Scans q) (hrest : q.cursor.rest = t :: ts)
    (hopen : t.is q.options.keyword = true) (hheader : Enclosure.header.cut? q.options.matching 0 ts = some header) :
    Collects p .header header.inner
  | body {q : Parser} {t : Token} {ts : List Token} {header body : Enclosure.Cut} (hscan : p.Scans q) (hrest : q.cursor.rest = t :: ts)
    (hopen : t.is q.options.keyword = true) (hheader : Enclosure.header.cut? q.options.matching 0 ts = some header)
    (hbody : Enclosure.body.cut? q.options.matching 0 header.rest = some body) : Collects p .body body.closed

/-- Nothing that a scan of the parser collects opens more than one delimiter. -/
def Flat (p : Parser) : Prop := ∀ enclosure ts, p.Collects enclosure ts → ts.countP (·.is enclosure.opening) ≤ 1

/-- The parser when it matches delimiters. -/
def matched (p : Parser) : Parser := p.withOptions { p.options with matching := .balanced }

theorem Sound.matched {p : Parser} (hp : p.Sound) : p.matched.Sound := ⟨hp.reached, hp.root_unowned, hp.no_opener⟩

/-- A parser takes a loop in the same way. -/
theorem extended_matched (p : Parser) (t : Token) (ts : List Token) (header body : Enclosure.Cut) (l : Loop) :
    p.matched.extended t ts header body l = (p.extended t ts header body l).matched := by
  unfold extended
  rfl

/-- What a scan collects after a step, it collects. -/
theorem Flat.of_step {p q : Parser} (h : p.Flat) (hstep : p.Step q) : q.Flat := by
  intro enclosure ts hcollects
  refine h enclosure ts ?_
  cases hcollects with
  | header hscan hrest hopen hheader => exact .header (.step hstep hscan) hrest hopen hheader
  | body hscan hrest hopen hheader hbody => exact .body (.step hstep hscan) hrest hopen hheader hbody

section

variable {p q : Parser} {t : Token} {ts : List Token}

/-- Behind a keyword a header is cut out in both ways or in neither. -/
theorem Flat.header_cut? (h : p.Flat) (hlexical : p.options.matching = .lexical) (hrest : p.cursor.rest = t :: ts)
    (hopen : t.is p.options.keyword = true) : Enclosure.header.cut? .balanced 0 ts = Enclosure.header.cut? .lexical 0 ts :=
  Enclosure.cut?_balanced_eq_lexical (Enclosure.opening_ne_closing (by decide)) fun _ hcut =>
    h .header _ (.header .refl hrest hopen (hlexical ▸ hcut))

/-- Behind a header a body is. -/
theorem Flat.body_cut? (h : p.Flat) (hlexical : p.options.matching = .lexical) (hrest : p.cursor.rest = t :: ts)
    (hopen : t.is p.options.keyword = true) {header : Enclosure.Cut} (hheader : Enclosure.header.cut? .lexical 0 ts = some header) :
    Enclosure.body.cut? .balanced 0 header.rest = Enclosure.body.cut? .lexical 0 header.rest := by
  refine Enclosure.cut?_balanced_eq_lexical (Enclosure.opening_ne_closing (by decide)) fun body hcut => ?_
  have hclosed := h .body _ (.body .refl hrest hopen (hlexical ▸ hheader) (hlexical ▸ hcut))
  exact Nat.le_trans (List.sublist_append_left _ _).countP_le hclosed

/-- A loop is tried in the same way. -/
theorem TriedBy.matched {answer : Except ParseError Unit} (htried : p.TriedBy t ts (answer, q)) (h : p.Flat)
    (hlexical : p.options.matching = .lexical) (hrest : p.cursor.rest = t :: ts) (hopen : t.is p.options.keyword = true) :
    p.matched.TriedBy t ts (answer, q.matched) := by
  have hheader := h.header_cut? hlexical hrest hopen
  cases htried with
  | noHeader hnone =>
    rw [hlexical, ← hheader] at hnone
    exact .noHeader hnone
  | noBody hcut hnone =>
    rw [hlexical] at hcut hnone
    have hbody := h.body_cut? hlexical hrest hopen hcut
    exact .noBody (hheader.trans hcut) (hbody.trans hnone)
  | fault hcut hcut' hloop =>
    rw [hlexical] at hcut hcut'
    have hbody := h.body_cut? hlexical hrest hopen hcut
    exact .fault (hheader.trans hcut) (hbody.trans hcut') hloop
  | loop hcut hcut' hloop =>
    rw [hlexical] at hcut hcut'
    have hbody := h.body_cut? hlexical hrest hopen hcut
    rw [← extended_matched]
    exact .loop (hheader.trans hcut) (hbody.trans hcut') hloop

/-- A step is one when delimiters are matched, too. -/
theorem Step.matched (hstep : p.Step q) (hp : p.Sound) (h : p.Flat) (hlexical : p.options.matching = .lexical) :
    p.matched.Step q.matched := by
  cases hstep with
  | @pass t rest hrest hopen => exact Step.pass hrest hopen
  | @add t rest _ hrest hopen hadd =>
    have htried := ((addLoop_eq_iff hp).mp hadd).matched h hlexical hrest hopen
    have hadd' := htried.addLoop_eq hp.matched
    exact .add hrest hopen hadd'

/-- A scan that stops does so when delimiters are matched, too. -/
theorem Stops.matched {e : ParseError} (hstop : p.Stops e q) (hp : p.Sound) (h : p.Flat) (hlexical : p.options.matching = .lexical) :
    p.matched.Stops e q.matched := by
  obtain ⟨hrest, hopen, hadd⟩ := hstop
  have htried := ((addLoop_eq_iff hp).mp hadd).matched h hlexical hrest hopen
  have hadd' := htried.addLoop_eq hp.matched
  exact .intro hrest hopen hadd'

/-- A scan goes by the same steps, and is flat where they lead. -/
theorem Scans.matched (hscan : p.Scans q) (hp : p.Sound) (h : p.Flat) (hlexical : p.options.matching = .lexical) :
    p.matched.Scans q.matched ∧ q.Flat := by
  induction hscan with
  | refl => exact ⟨.refl, h⟩
  | step hstep _ ih =>
    obtain ⟨hscan, hflat⟩ := ih (hstep.sound hp) (h.of_step hstep) (hstep.choices_eq.1 ▸ hlexical)
    exact ⟨.step (hstep.matched hp h hlexical) hscan, hflat⟩

/-- A flat scan is the same when delimiters are matched. -/
theorem Flat.parseProgram_matched (h : p.Flat) (hp : p.Sound) (hlexical : p.options.matching = .lexical) :
    p.matched.parseProgram = (p.parseProgram.1, p.parseProgram.2.matched) := by
  obtain ⟨q, hscan, hend⟩ := p.exists_scans
  obtain ⟨hscan', hflat⟩ := hscan.matched hp h hlexical
  rcases hend with ⟨hrest, heq⟩ | ⟨e, r, hstop, heq⟩
  · rw [heq]
    exact hscan'.parseProgram_eq.trans (parseProgram_of_nil hrest)
  · have hstop' := hstop.matched (hscan.sound hp) hflat (hscan.options_eq ▸ hlexical)
    rw [heq]
    exact hscan'.parseProgram_eq.trans hstop'.parseProgram_eq

end

/-- What a scan collects stands together among the tokens to come. -/
theorem Collects.isInfix {p : Parser} {enclosure : Enclosure} {ts : List Token} (h : p.Collects enclosure ts) :
    ts <:+: p.cursor.rest := by
  cases h with
  | @header q t behind header hscan hrest hopen hheader =>
    obtain ⟨taken, htaken, -⟩ := hscan.frame
    rw [htaken, hrest, ← Enclosure.cut?_append hheader]
    exact ⟨taken ++ [t], header.closer :: header.rest, by simp [Enclosure.Cut.closed]⟩
  | @body q t behind header body hscan hrest hopen hheader hbody =>
    obtain ⟨taken, htaken, -⟩ := hscan.frame
    rw [htaken, hrest, ← Enclosure.cut?_append hheader, ← Enclosure.cut?_append hbody]
    exact ⟨taken ++ t :: header.closed, body.rest, by simp⟩

/-- A scan keeps the options. -/
theorem Sound.parseProgram_options {p : Parser} (hp : p.Sound) : p.parseProgram.2.options = p.options := by
  obtain ⟨q, hscan, ⟨-, heq⟩ | ⟨e, r, ⟨-, -, hadd⟩, heq⟩⟩ := p.exists_scans
  · rw [heq]
    exact hscan.options_eq
  · rw [heq]
    have htried := (addLoop_eq_iff (hscan.sound hp)).mp hadd
    cases htried with
    | noHeader | noBody | fault => exact hscan.options_eq

/-- Whatever stands ahead of the cursor, when matched delimiters end a header or a body, so do delimiters that are not matched. What is
collected then is a beginning of what was collected with matching, and the same just when it opens no more than one delimiter. This is so
without the closing delimiter, which is how a header is collected, and with it, which is how a body is.

Consequently a scan without matching, of a parser in use and with any keyword, that collects no header with more than one opening
parenthesis and no body with more than one opening brace is the scan with matching: the answer, be it the root or an error, is the same,
and the parsers left behind differ in nothing but the way they match. -/
theorem matchings_agree :
    (∀ (p : Parser) (keyword : String), ∀ enclosure ∈ [Enclosure.header, Enclosure.body], ∀ cut q,
      enclosed enclosure (p.withOptions ⟨.balanced, keyword⟩) = (.ok cut, q) →
      ∃ cut' q', enclosed enclosure (p.withOptions ⟨.lexical, keyword⟩) = (.ok cut', q') ∧
        (cut'.inner <+: cut.inner ∧ (cut'.inner = cut.inner ↔ cut'.inner.countP (·.is enclosure.opening) ≤ 1)) ∧
        (cut'.closed <+: cut.closed ∧ (cut'.closed = cut.closed ↔ cut'.closed.countP (·.is enclosure.opening) ≤ 1))) ∧
    ∀ p : Parser, p.Reached → ∀ keyword,
      let lexical := p.withOptions ⟨.lexical, keyword⟩
      let balanced := p.withOptions ⟨.balanced, keyword⟩
      (∀ header, lexical.Collects .header header → header.countP (·.is "(") ≤ 1) →
      (∀ body, lexical.Collects .body body → body.countP (·.is "\x7b") ≤ 1) →
      balanced.parseProgram = (lexical.parseProgram.1, lexical.parseProgram.2.withOptions ⟨.balanced, keyword⟩) := by
  refine ⟨fun p keyword enclosure henclosure cut q h => ?_, ?_⟩
  · have hne := Enclosure.opening_ne_closing henclosure
    obtain ⟨hcut, -⟩ := enclosed_eq_ok_iff.mp h
    obtain ⟨cut', hcut', hinner, hclosed, hsame⟩ := Enclosure.exists_cut?_lexical hne hcut
    have hinner_iff : cut'.inner = cut.inner ↔ cut' = cut :=
      ⟨Enclosure.Cut.eq_of_inner ((Enclosure.cut?_append hcut').trans (Enclosure.cut?_append hcut).symm), congrArg _⟩
    have hclosed_iff : cut'.closed = cut.closed ↔ cut' = cut :=
      ⟨fun heq => hinner_iff.mp (Enclosure.Cut.inner_eq_of_closed heq), congrArg _⟩
    refine ⟨cut', _, enclosed_eq_ok_iff.mpr ⟨hcut', rfl⟩, ⟨hinner, hinner_iff.trans hsame⟩, hclosed, ?_⟩
    rw [Enclosure.countP_closed_lexical hne hcut']
    exact hclosed_iff.trans hsame
  · intro p hp keyword lexical balanced hheader hbody
    have hflat : lexical.Flat := fun enclosure ts hcollects => by
      cases hcollects with
      | header hscan hrest hopen hcut => exact hheader _ (.header hscan hrest hopen hcut)
      | body hscan hrest hopen hcut hcut' => exact hbody _ (.body hscan hrest hopen hcut hcut')
    have hsound : lexical.Sound := hp.sound.after (.withOptions _)
    have hscan := hflat.parseProgram_matched hsound rfl
    rw [matched, matched, hsound.parseProgram_options] at hscan
    exact hscan

/-- The statement at nested braces, of which only a beginning is collected without matching, and at a program whose one loop is not nested
and whose second keyword has no header behind it. -/
theorem matchings_agree_nestedBraces :
    let token (text : String) : Token := ⟨.punctuation, text, .start⟩
    let nested := ofTokens (["\x7b", "\x7b", "\x7d", "\x7d"].map token)
    let flat := ofTokens (["for", "(", "i", "=", "0", ";", "i", "<", "1", ";", "i++", ")", "\x7b", "\x7d", "for"].map token)
    let lexical := flat.withOptions ⟨.lexical, "for"⟩
    let balanced := flat.withOptions ⟨.balanced, "for"⟩
    (enclosed .body (nested.withOptions ⟨.balanced, "for"⟩)).1 = .ok ⟨["\x7b", "\x7b", "\x7d"].map token, token "\x7d", []⟩ ∧
      (∃ cut' q', enclosed .body (nested.withOptions ⟨.lexical, "for"⟩) = (.ok cut', q') ∧
        cut'.closed <+: ["\x7b", "\x7b", "\x7d", "\x7d"].map token) ∧
      flat.Reached ∧ (∀ header, lexical.Collects .header header → header.countP (·.is "(") ≤ 1) ∧
      (∀ body, lexical.Collects .body body → body.countP (·.is "\x7b") ≤ 1) ∧
      balanced.parseProgram = (.error (.unterminated .header .start), lexical.parseProgram.2.withOptions ⟨.balanced, "for"⟩) := by
  intro token nested flat lexical balanced
  obtain ⟨hcuts, hscans⟩ := matchings_agree
  have hbody : (enclosed .body (nested.withOptions ⟨.balanced, "for"⟩)).1 =
      .ok ⟨["\x7b", "\x7b", "\x7d"].map token, token "\x7d", []⟩ := by rfl
  obtain ⟨cut', q', hcut', -, hclosed, -⟩ := hcuts nested "for" .body (by decide) _ _ (Prod.ext hbody rfl)
  have hflat : flat.Reached := ⟨_, [], rfl⟩
  have hheader : ∀ header, lexical.Collects .header header → header.countP (·.is "(") ≤ 1 := fun _ h =>
    Nat.le_trans h.isInfix.sublist.countP_le (by decide)
  have hbody' : ∀ body, lexical.Collects .body body → body.countP (·.is "\x7b") ≤ 1 := fun _ h =>
    Nat.le_trans h.isInfix.sublist.countP_le (by decide)
  have hscan := hscans flat hflat "for" hheader hbody'
  have hanswer : lexical.parseProgram.1 = .error (.unterminated .header .start) := by decide +kernel
  rw [hanswer] at hscan
  exact ⟨hbody, ⟨cut', q', hcut', hclosed⟩, hflat, hheader, hbody', hscan⟩

end Parser

end LoopForest
