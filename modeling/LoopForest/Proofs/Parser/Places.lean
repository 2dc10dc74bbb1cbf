import LoopForest.Proofs.Parser.Logging
import LoopForest.Proofs.Parser.Rejection

/-!
# Where errors show

An error of a parser shows at a place in the text, and the user of the parser looks for a token there. For a scan there is one, and it
belongs to the construct at which the scan stops (`Parser.parseProgram_error_place`): the last token of all when the construct does not
end, the keyword or the first token of the header when the header is malformed, and otherwise the opener or the first token of the clause
that is rejected. `ParseError.ShowsAt` gives the number of that token among all tokens. The place does not depend on where the cursor
stands by then, which is behind the body, or on what was called before.

A user who calls the function for one clause, with tokens of their own, finds the error at the first of these tokens
(`Parser.part_error_place`). There is one exception: an initialization of two tokens has none left for its variable, and an error about no
tokens shows at the token the cursor has passed last, which is not among those the function was given.
-/

namespace LoopForest

/-! ## The error of a construct -/

/-- The header of the construct whose keyword is the token numbered `start`, if it ends. -/
def Options.headerBehind? (options : Options) (tokens : List Token) (start : Nat) : Option Enclosure.Cut :=
  Enclosure.header.cut? options.matching 0 (tokens.drop (start + 1))

/-- The token at which the error of a construct shows, when its keyword is the token numbered `start`. -/
inductive ParseError.ShowsAt (options : Options) (lookup : Lookup) (tokens : List Token) (start : Nat) : ParseError → Nat → Prop where
  /-- The header or the body does not end: at the last token of all. -/
  | unterminated {enclosure : Enclosure} {location : Location} {last : Nat}
    (hend : ∀ header, options.headerBehind? tokens start = some header → Enclosure.body.cut? options.matching 0 header.rest = none)
    (hlast : last + 1 = tokens.length) : ShowsAt options lookup tokens start (.unterminated enclosure location) last
  /-- The header has no token: at the keyword. -/
  | keyword {header : Enclosure.Cut} {location : Location}
    (hheader : options.headerBehind? tokens start = some header) (hnone : header.inner = []) :
    ShowsAt options lookup tokens start (.malformedHeader HeaderFault.empty.reason location) start
  /-- The header has tokens, but they are not a parenthesis and three clauses: at the first of them. -/
  | first {header : Enclosure.Cut} {fault : HeaderFault} {location : Location}
    (hheader : options.headerBehind? tokens start = some header) (hsome : header.inner ≠ [])
    (hfault : Header.Misread header.inner fault) :
    ShowsAt options lookup tokens start (.malformedHeader fault.reason location) (start + 1)
  /-- The header has three clauses, of which this is the first that does not have its form: at the token that opens the clause, or at the
  first token of the clause if it has one. -/
  | clause {header : Enclosure.Cut} {clauses : Header} {role : Role} {e : ParseError} {i : Nat}
    (hheader : options.headerBehind? tokens start = some header)
    (hclauses : Header.Written header.inner clauses) (hrejects : clauses.Rejects lookup role)
    (hshows : (clauses.clause role).Shows e i) :
    ShowsAt options lookup tokens start e (start + 1 + ((clauses.ahead role).length + i))

/-- Where an error of the construct at `start` shows there is a token, at the keyword or behind it, and when the construct ends that is
not behind the header. -/
structure ParseError.Within (options : Options) (tokens : List Token) (start : Nat) (e : ParseError) (place : Nat) : Prop where
  exists_token : ∃ t, tokens[place]? = some t ∧ e.location = t.location
  start_le : start ≤ place
  place_le : (∃ enclosure location, e = .unterminated enclosure location) ∨
    ∃ header, options.headerBehind? tokens start = some header ∧ place ≤ start + header.inner.length

namespace Parser

section

variable {p : Parser} {t : Token} {ts : List Token}

/-- The tokens behind the next one, by number. -/
theorem drop_succ_position (hrest : p.cursor.rest = t :: ts) : p.cursor.tokens.drop (p.cursor.position + 1) = ts := by
  rw [← List.drop_drop, p.cursor.drop_position, hrest]
  rfl

theorem headerBehind?_position (hrest : p.cursor.rest = t :: ts) :
    p.options.headerBehind? p.cursor.tokens p.cursor.position = Enclosure.header.cut? p.options.matching 0 ts := by
  rw [Options.headerBehind?, drop_succ_position hrest]

/-- The tokens of the header behind the next token, by number. -/
theorem getElem?_header (hrest : p.cursor.rest = t :: ts) {header : Enclosure.Cut}
    (hheader : Enclosure.header.cut? p.options.matching 0 ts = some header) {i : Nat} (hi : i < header.inner.length) :
    p.cursor.tokens[p.cursor.position + 1 + i]? = header.inner[i]? := by
  have happend := Enclosure.cut?_append hheader
  rw [Enclosure.Cut.closed, List.append_assoc] at happend
  rw [← List.getElem?_drop, drop_succ_position hrest, ← happend, List.getElem?_append_left hi]

/-- The tokens end with the last one behind the next token, or with that one. -/
theorem exists_last (hrest : p.cursor.rest = t :: ts) :
    ∃ last, last + 1 = p.cursor.tokens.length ∧ p.cursor.position ≤ last ∧ p.cursor.tokens[last]? = some (ts.getLast?.getD t) := by
  have hlength : p.cursor.tokens.length = p.cursor.position + ts.length + 1 := by
    rw [Cursor.length_tokens, hrest, List.length_cons, Nat.add_assoc]
  refine ⟨p.cursor.position + ts.length, hlength.symm, Nat.le_add_right _ _, ?_⟩
  rw [← List.getElem?_drop, p.cursor.drop_position, hrest, ← List.getLast?_cons, List.getLast?_eq_getElem?]
  rfl

/-- The error of a construct that does not end shows at the last token of all. -/
theorem exists_showsAt_unterminated (hrest : p.cursor.rest = t :: ts) (enclosure : Enclosure)
    (hend : ∀ header, Enclosure.header.cut? p.options.matching 0 ts = some header →
      Enclosure.body.cut? p.options.matching 0 header.rest = none) :
    ∃ place, ParseError.ShowsAt p.options p.lookup p.cursor.tokens p.cursor.position
        (.unterminated enclosure (ts.getLast?.getD t).location) place ∧
      ParseError.Within p.options p.cursor.tokens p.cursor.position (.unterminated enclosure (ts.getLast?.getD t).location) place := by
  obtain ⟨last, hlast, hle, htoken⟩ := exists_last hrest
  rw [← headerBehind?_position hrest] at hend
  exact ⟨last, .unterminated hend hlast, ⟨_, htoken, rfl⟩, hle, Or.inl ⟨_, _, rfl⟩⟩

/-- The error of a header that is cut out shows at the keyword or in the header. -/
theorem exists_showsAt_refused (hrest : p.cursor.rest = t :: ts) {header : Enclosure.Cut}
    (hheader : Enclosure.header.cut? p.options.matching 0 ts = some header) {e : ParseError}
    (h : Loop.Refused p.lookup t.location header.inner e) :
    ∃ place, ParseError.ShowsAt p.options p.lookup p.cursor.tokens p.cursor.position e place ∧
      ParseError.Within p.options p.cursor.tokens p.cursor.position e place := by
  have hcut := (headerBehind?_position hrest).trans hheader
  have htoken : ∀ {i : Nat}, i < header.inner.length → p.cursor.tokens[p.cursor.position + 1 + i]? = header.inner[i]? :=
    getElem?_header hrest hheader
  cases h with
  | header hfault =>
    cases hinner : header.inner with
    | nil =>
      rw [hinner] at hfault
      cases hfault
      have hkeyword := Cursor.getElem?_position hrest
      exact ⟨_, .keyword hcut hinner, ⟨t, hkeyword, rfl⟩, Nat.le_refl _, Or.inr ⟨header, hcut, Nat.le_add_right _ _⟩⟩
    | cons first behind =>
      have hsome : header.inner ≠ [] := hinner ▸ List.cons_ne_nil _ _
      have hpos : 0 < header.inner.length := List.length_pos_of_ne_nil hsome
      have hfirst : p.cursor.tokens[p.cursor.position + 1]? = some first := (htoken hpos).trans (by rw [hinner]; rfl)
      refine ⟨_, .first hcut hsome hfault, ⟨first, hfirst, ?_⟩, Nat.le_succ _, Or.inr ⟨header, hcut, ?_⟩⟩
      · rw [hinner] at hfault
        cases hfault <;> rfl
      · exact Nat.add_le_add_left hpos _
  | clause hclauses hclause =>
    obtain ⟨role, i, hrejects, hshows⟩ := hclause.exists_rejects
    obtain ⟨u, hu, hlocation⟩ := hshows.exists_token
    have hindex := hclauses.getElem?_clause hu
    have hlt := (List.getElem?_eq_some_iff.mp hindex).1
    have hplace := (htoken hlt).trans hindex
    refine ⟨_, .clause hcut hclauses hrejects hshows, ⟨u, hplace, hlocation⟩, ?_, Or.inr ⟨header, hcut, ?_⟩⟩ <;> omega

end

/-! ## The error of a scan -/

/-- The error of a construct that cannot be read shows in the construct. -/
theorem Stops.exists_showsAt {p q : Parser} {e : ParseError} (hp : p.Sound) (h : p.Stops e q) :
    ∃ place, ParseError.ShowsAt p.options p.lookup p.cursor.tokens p.cursor.position e place ∧
      ParseError.Within p.options p.cursor.tokens p.cursor.position e place := by
  obtain @⟨t, ts, hrest, -, hadd⟩ := h
  cases (addLoop_eq_iff hp).mp hadd with
  | noHeader hheader =>
    refine exists_showsAt_unterminated hrest .header fun header hsome => ?_
    rw [hheader] at hsome
    cases hsome
  | noBody hheader hbody =>
    refine exists_showsAt_unterminated hrest .body fun header hsome => ?_
    obtain rfl := Option.some.inj (hheader.symm.trans hsome)
    exact hbody
  | fault hheader _ hloop => exact exists_showsAt_refused hrest hheader (Loop.exists_fault_iff.mp ⟨_, hloop, rfl⟩)

/-- When the scan of a parser in use stops with an error, it stops at a keyword from the position on, and the error shows at a token of the
construct that the keyword begins. When the construct does not end that is the last token of all. When the header is malformed it is the
keyword, if the header is empty, or the first token of the header. Otherwise three clauses make up the header, and for the first of them
that does not have its form it is the token that opens the clause or the first token of the clause; so for an empty clause it is the one
that opens it. In all cases but the first the token does not stand behind the header. -/
theorem parseProgram_error_place {p q : Parser} {e : ParseError} (hp : p.Reached) (h : p.parseProgram = (.error e, q)) :
    ∃ start place keyword, p.StopsAt start e q ∧
      (p.cursor.position ≤ start ∧ p.cursor.tokens[start]? = some keyword ∧ keyword.value = p.options.keyword) ∧
      ParseError.ShowsAt p.options p.lookup p.cursor.tokens start e place ∧
      ParseError.Within p.options p.cursor.tokens start e place := by
  obtain ⟨start, hstopsAt⟩ := exists_stopsAt h
  obtain ⟨hle, keyword, hkeyword, hvalue⟩ := hstopsAt.exists_keyword hp.sound
  obtain ⟨stop, hscan, rfl, hstop⟩ := id hstopsAt
  obtain ⟨htokens, -⟩ := hscan.builds hp.sound
  obtain ⟨place, hshows, hwithin⟩ := hstop.exists_showsAt (hscan.sound hp.sound)
  rw [hscan.options_eq, hscan.lookup_eq, htokens] at hshows
  rw [hscan.options_eq, htokens] at hwithin
  exact ⟨_, place, keyword, hstopsAt, ⟨hle, hkeyword, hvalue⟩, hshows, hwithin⟩

/-- The statement at a parser that has read a variable and then scans to a second loop whose initialization is not empty, but has no
token left for its variable: the error shows at the parenthesis that opens it. -/
theorem parseProgram_error_place_targetless :
    let tokens : List Token := ["for", "(", "i", "=", "0", ";", "i", "<", "1", ";", "i++", ")", "\x7b", "x", "\x7d", "y",
      "for", "(", "=", "5", ";", ";", "j++", ")", "\x7b", "\x7d"].mapIdx fun i text => ⟨.identifier, text, ⟨i + 1, 1⟩⟩
    let p := (ofTokens tokens).run [.parseTarget [⟨.identifier, "x", ⟨9, 9⟩⟩]]
    let q := p.parseProgram.2
    let e := ParseError.unsupported "variable" "no tokens" ⟨18, 1⟩
    p.Reached ∧ p.parseProgram = (.error e, q) ∧
      ∃ start place keyword, p.StopsAt start e q ∧
        (p.cursor.position ≤ start ∧ p.cursor.tokens[start]? = some keyword ∧ keyword.value = p.options.keyword) ∧
        ParseError.ShowsAt p.options p.lookup p.cursor.tokens start e place ∧
        ParseError.Within p.options p.cursor.tokens start e place := by
  intro tokens p q e
  have hp : p.Reached := ⟨_, _, rfl⟩
  have herror : p.parseProgram.1 = .error e := by decide +kernel
  have h : p.parseProgram = (.error e, q) := Prod.ext herror rfl
  exact ⟨hp, h, parseProgram_error_place hp h⟩

/-! ## The error of a part -/

section

variable {p q : Parser} {e : ParseError} {tokens : List Token}

/-- A variable, a condition or an update that is refused is refused as a whole. -/
theorem location_eq_anchor (hroot : Forest.root < p.forest.size) {parse : List Token → Action NodeId}
    (hparse : parse ∈ [parseTarget, parseCondition, parseUpdate]) (h : parse tokens p = (.error e, q)) :
    e.location = p.anchor tokens := by
  simp only [List.mem_cons, List.not_mem_nil, or_false] at hparse
  rcases hparse with rfl | rfl | rfl
  · rw [parseTarget_eq] at h
    cases hread : Target.ofTokens tokens with
    | ok t => simp [hread] at h
    | error m =>
      obtain ⟨-, rfl⟩ := Target.ofTokens_eq_error_iff.mp hread
      rw [hread] at h
      cases h
      rfl
  · rw [parseCondition_eq] at h
    cases hread : Condition.ofTokens p.lookup tokens with
    | ok c => simp [hread] at h
    | error cause =>
      rw [hread] at h
      cases h
      rfl
  · rw [parseUpdate_eq hroot] at h
    cases hread : Update.ofTokens tokens with
    | ok u => simp [hread] at h
    | error m =>
      obtain rfl := Update.misfit_eq hread
      rw [hread] at h
      cases h
      rfl

/-- Of an initialization the part that is not read is refused. -/
theorem parseInitialization_eq_error_iff (hroot : Forest.root < p.forest.size) :
    parseInitialization tokens p = (.error e, q) ↔
      ∃ m, Initialization.Misread tokens m ∧ e = .unsupported m.expression m.found (p.anchor m.tokens) ∧ q = p := by
  rw [parseInitialization_eq hroot]
  simp only [← Initialization.ofTokens_eq_error_iff]
  cases Initialization.ofTokens tokens <;> simp [eq_comm]

end

/-- When a parser in use is asked for a variable, a condition or an update and stops, the error shows at the first of the tokens it was
given. So does the error of an initialization, unless it has two tokens: such a one always stops, and the error shows at the token
passed last. -/
theorem part_error_place {p : Parser} (hp : p.Reached) (first : Token) (behind : List Token) :
    (∀ parse ∈ [parseTarget, parseCondition, parseUpdate], ∀ e q, parse (first :: behind) p = (.error e, q) →
      e.location = first.location) ∧
    (∀ e q, parseInitialization (first :: behind) p = (.error e, q) → behind.length ≠ 1 → e.location = first.location) ∧
    ∀ value, parseInitialization [first, value] p = (.error (.unsupported "variable" "no tokens" p.cursor.lastLocation), p) := by
  have hroot := hp.sound.reached.root_lt_size
  refine ⟨fun parse hparse e q h => location_eq_anchor hroot hparse h, fun e q h hlength => ?_, fun value => ?_⟩
  · obtain ⟨m, hm, rfl, -⟩ := (parseInitialization_eq_error_iff hroot).mp h
    generalize htokens : first :: behind = tokens at hm
    cases hm with
    | short =>
      rw [← htokens]
      rfl
    | @target target assign value =>
      -- the variable begins with the first token, unless the last two tokens are all there are
      cases target with
      | nil =>
        rw [(List.cons.inj htokens).2] at hlength
        exact absurd rfl hlength
      | cons t ts =>
        obtain ⟨rfl, -⟩ := List.cons.inj htokens
        rfl
  · have hmisread : Initialization.Misread [first, value] ⟨"variable", []⟩ := @Initialization.Misread.target [] first value (by decide)
    refine (parseInitialization_eq_error_iff hroot).mpr ⟨_, hmisread, ?_, rfl⟩
    simp only [anchor, hp.sound.no_opener]
    rfl

/-- The statement at a parser that has passed a token and finds every comparator out of range, for a condition and for initializations of
one token and of two. -/
theorem part_error_place_tokenPassed :
    let token (text : String) (column : Nat) : Token := ⟨.identifier, text, ⟨3, column⟩⟩
    let p := (ofTokens [⟨.identifier, "x", ⟨2, 5⟩⟩]).run [.withLookup fun _ => .ok 7, .parseProgram]
    p.Reached ∧
      (∃ e, (parseCondition [token "i" 7, token "<" 8] p).1 = .error e ∧ e.location = ⟨3, 7⟩) ∧
      (∃ e, (parseInitialization [token "i" 7] p).1 = .error e ∧ e.location = ⟨3, 7⟩) ∧
      parseInitialization [token "=" 7, token "5" 9] p = (.error (.unsupported "variable" "no tokens" ⟨2, 5⟩), p) := by
  intro token p
  have hp : p.Reached := ⟨_, _, rfl⟩
  have hlast : p.cursor.lastLocation = ⟨2, 5⟩ := by decide +kernel
  obtain ⟨hwhole, -, -⟩ := part_error_place hp (token "i" 7) [token "<" 8]
  obtain ⟨-, hshort, -⟩ := part_error_place hp (token "i" 7) []
  obtain ⟨-, -, htwo⟩ := part_error_place hp (token "=" 7) []
  have hcondition : (parseCondition [token "i" 7, token "<" 8] p).1 = .error (.invalidCondition (.outOfRange 7 2) ⟨3, 7⟩) := by
    decide +kernel
  have hinitialization : (parseInitialization [token "i" 7] p).1 = .error (.unsupported "assignment" "1 token(s) 'i'" ⟨3, 7⟩) := by
    decide +kernel
  refine ⟨hp, ⟨_, hcondition, hwhole parseCondition (by simp) _ _ (Prod.ext hcondition rfl)⟩,
    ⟨_, hinitialization, hshort _ _ (Prod.ext hinitialization rfl) (by decide)⟩, ?_⟩
  rw [← hlast]
  exact htwo (token "5" 9)

/-- An error that does not show at the tokens given, in a parser without tokens of its own: there is no token where it shows. -/
theorem parseInitialization_misplaced :
    let assign : Token := ⟨.operator, "=", ⟨3, 7⟩⟩
    let value : Token := ⟨.literal, "5", ⟨3, 9⟩⟩
    (ofTokens []).Reached ∧
      (parseInitialization [assign, value] (ofTokens [])).1 = .error (.unsupported "variable" "no tokens" ⟨1, 1⟩) ∧
      (⟨1, 1⟩ : Location) ≠ assign.location ∧ (⟨1, 1⟩ : Location) ≠ value.location :=
  ⟨⟨[], [], rfl⟩, by decide +kernel, by decide, by decide⟩

end Parser

end LoopForest
