import LoopForest.Proofs.Parser.Comparison
import LoopForest.Proofs.Parser.Constructs
import LoopForest.Proofs.Parser.Grammar
import LoopForest.Proofs.Text.CountingLoop

/-!
# Programs of loops that count

A program of loops that count is read as what was written (`parseProgram_counting`): it has no fault, scanning it comes to the end, and
the loops of the forest are those of the program, in order, each with the variable, the numbers and the body it was given. Loops inside
a body stay tokens of it.

Each loop is one step of the scan. Its header and its body are cut out at delimiters that match (`Enclosure.cut?_enclosed`), and
what the header says depends on the texts of its tokens alone (`CountingLoop.exists_loop`).
-/

namespace LoopForest

namespace Enclosure

variable {enclosure : Enclosure}

/-- Whether tokens are balanced depends on their texts alone. -/
theorem Balanced.congr {ts us : List Token} (h : ts.map Token.word = us.map Token.word) (hus : enclosure.Balanced us) :
    enclosure.Balanced ts := by
  have hcount : ∀ {before before' : List Token} (text : String), before.map Token.word = before'.map Token.word →
      before.countP (·.is text) = before'.countP (·.is text) := fun text heq => by
    have := congrArg (List.countP fun w => w.2 == text) heq
    rwa [List.countP_map, List.countP_map] at this
  refine ⟨fun before hb => ?_, by rw [hcount _ h, hcount _ h, hus.totals]⟩
  obtain ⟨before', hb', heq⟩ := List.prefix_map_iff.mp (h ▸ hb.map Token.word)
  rw [hcount _ heq, hcount _ heq]
  exact hus.prefixes before' hb'

end Enclosure

/-! ## The header of a loop that counts -/

/-- The texts that a header is read by. -/
def headerSymbols : List String := ["(", ")", ";"] ++ relationalOperators

theorem not_mem_headerSymbols {text : String} {c : Char} {cs : List Char} (htext : text.toList = c :: cs) (hc : Piece.isWordChar c) :
    text ∉ headerSymbols := by
  have hall : ∀ symbol ∈ headerSymbols, symbol.toList.head?.all (fun c => !Piece.isWordChar c) := by decide
  intro hm
  have := hall text hm
  simp [htext, hc] at this

theorem IsName.not_mem_headerSymbols {text : String} (h : IsName text) : text ∉ headerSymbols := by
  obtain ⟨c, cs, htext, hc, -⟩ := h
  refine LoopForest.not_mem_headerSymbols htext ?_
  rcases hc with hc | hc <;> simp [Piece.isWordChar, Char.isAlphanum, hc]

theorem IsNumeral.not_mem_headerSymbols {text : String} (h : IsNumeral text) : text ∉ headerSymbols := by
  obtain ⟨hne, hall⟩ := h
  obtain ⟨c, cs, htext⟩ := List.exists_cons_of_ne_nil hne
  refine LoopForest.not_mem_headerSymbols htext ?_
  have hc := hall c (htext ▸ List.mem_cons_self)
  simp [Piece.isWordChar, Char.isAlphanum, hc]

/-- What is read says that a name of type `int` counts from a number to a limit by one. -/
structure Loop.Counts (l : Loop) (c : CountingLoop) : Prop where
  target_name : l.initialization.target.name = c.name
  target_type : l.initialization.target.type = some "int"
  start : l.initialization.value = c.start
  left : l.condition.left.map (·.value) = [c.name]
  comparator : l.condition.comparator.value = "<"
  right : l.condition.right.map (·.value) = [c.limit]
  updated : l.update.target = c.name
  operator : l.update.operator = "+"
  amount : l.update.value = "1"

namespace CountingLoop

/-- The texts of a header's tokens. -/
theorem values_header (c : CountingLoop) {header : List Token} (h : header.map Token.word = c.headerWords) :
    header.map (·.value) = ["(", "int", c.name, "=", c.start, ";", c.name, "<", c.limit, ";", c.name, "++"] := by
  have hvalues := congrArg (List.map Prod.snd) h
  rwa [List.map_map] at hvalues

/-- A header opens a parenthesis, and no other behind it. -/
theorem exists_opener (c : CountingLoop) {header : List Token} (h : header.map Token.word = c.headerWords) :
    ∃ opener inner, header = opener :: inner ∧ opener.value = "(" ∧ Enclosure.header.Balanced inner := by
  obtain ⟨opener, inner, rfl, hopener, hinner⟩ := List.map_eq_cons_iff.mp (c.values_header h)
  have hvalue : ∀ text ∈ inner.map (·.value), text ≠ "(" ∧ text ≠ ")" := by
    have hname := c.isName.not_mem_headerSymbols
    have hstart := c.isNumeral_start.not_mem_headerSymbols
    have hlimit := c.isNumeral_limit.not_mem_headerSymbols
    simp only [headerSymbols, List.cons_append, List.mem_cons, not_or] at hname hstart hlimit
    simp [hinner, hname, hstart, hlimit]
  have his : ∀ t ∈ inner, t.is "(" = false ∧ t.is ")" = false := fun t ht => by
    simpa [Token.is] using hvalue t.value (List.mem_map_of_mem ht)
  exact ⟨opener, inner, rfl, hopener, .of_forall_not (fun t ht => (his t ht).1) fun t ht => (his t ht).2⟩

/-- A header says what was written. -/
theorem exists_loop (c : CountingLoop) {header : List Token} (h : header.map Token.word = c.headerWords) :
    ∃ l, Loop.ofHeader .relational header = .ok l ∧ l.Counts c := by
  have hname := c.isName.not_mem_headerSymbols
  have hstart := c.isNumeral_start.not_mem_headerSymbols
  have hlimit := c.isNumeral_limit.not_mem_headerSymbols
  simp only [headerSymbols, relationalOperators, List.cons_append, List.nil_append, List.mem_cons, List.not_mem_nil, or_false,
    not_or] at hname hstart hlimit
  have hvalues := c.values_header h
  simp only [List.map_eq_cons_iff, List.map_eq_nil_iff] at hvalues
  obtain ⟨opener, _, rfl, hopener, type, _, rfl, htype, first, _, rfl, hfirst, assign, _, rfl, hassign, start, _, rfl, hs, close, _,
    rfl, hclose, left, _, rfl, hleft, less, _, rfl, hless, limit, _, rfl, hl, close', _, rfl, hclose', target, _, rfl, htarget,
    step, _, rfl, hstep, rfl⟩ := hvalues
  have hclauses : Header.Written
      (opener :: ([type, first, assign, start] ++ close :: ([left, less, limit] ++ close' :: ([target, step] ++ []))))
      ⟨⟨opener, [type, first, assign, start]⟩, ⟨close, [left, less, limit]⟩, ⟨close', [target, step]⟩⟩ := by
    refine .intro ?_ ?_ ?_ ?_ ?_ ?_ (Or.inl ⟨rfl, List.cons_ne_nil target [step]⟩) <;>
      simp [NoSemicolon, Token.is, hopener, htype, hfirst, hassign, hs, hclose, hleft, hless, hl, hclose', htarget, hstep, hname,
        hstart, hlimit]
  have hlookup : Lookup.relational [left, less, limit] = .ok 1 := by
    have hleft' : left.isRelational = false := by simp [Token.isRelational, relationalOperators, hleft, hname]
    have hless' : less.isRelational = true := by simp [Token.isRelational, relationalOperators, hless]
    have hlimit' : limit.isRelational = false := by simp [Token.isRelational, relationalOperators, hl, hlimit]
    refine Lookup.relational_eq_ok_iff.mpr ⟨?_, ?_⟩
    · simp [hleft', hless', hlimit']
    · simp [List.findIdx_cons, hleft', hless']
  refine ⟨⟨⟨⟨first.value, some type.value, type.location⟩, start.value⟩, ⟨[left], less, [limit]⟩, left.location,
    ⟨target.value, "+", "1", target.location⟩⟩, Loop.ofHeader_eq_ok_iff.mpr ?_, ?_⟩
  · have hcondition : Condition.Written .relational [left, less, limit] ⟨[left], less, [limit]⟩ :=
      .intro hlookup (Nat.one_lt_succ_succ 1)
    exact .intro hclauses (.declared type first assign start) hcondition (.apart target step hstep (by decide))
  · exact ⟨hfirst, congrArg some htype, hs, congrArg (· :: []) hleft, hless, congrArg (· :: []) hl, htarget, rfl, rfl⟩

/-- The tokens of a loop that counts, and those behind it. -/
theorem exists_tokens (c : CountingLoop) {ts : List Token} {more : List (TokenKind × String)}
    (h : ts.map Token.word = c.words ++ more) :
    ∃ keyword header closer opener inner last rest, ts = keyword :: (header ++ closer :: opener :: (inner ++ last :: rest)) ∧
      keyword.value = "for" ∧ header.map Token.word = c.headerWords ∧ closer.value = ")" ∧ opener.value = "\x7b" ∧
      inner.map Token.word = c.tokens.map Token.word ∧ last.value = "\x7d" ∧ rest.map Token.word = more := by
  simp only [words, List.cons_append, List.append_assoc, List.nil_append] at h
  obtain ⟨keyword, _, rfl, hkeyword, h⟩ := List.map_eq_cons_iff.mp h
  obtain ⟨header, _, rfl, hheader, h⟩ := List.map_eq_append_iff.mp h
  obtain ⟨closer, _, rfl, hcloser, h⟩ := List.map_eq_cons_iff.mp h
  obtain ⟨opener, _, rfl, hopener, h⟩ := List.map_eq_cons_iff.mp h
  obtain ⟨inner, _, rfl, hinner, h⟩ := List.map_eq_append_iff.mp h
  obtain ⟨last, rest, rfl, hlast, hrest⟩ := List.map_eq_cons_iff.mp h
  exact ⟨keyword, header, closer, opener, inner, last, rest, rfl, congrArg Prod.snd hkeyword, hheader, congrArg Prod.snd hcloser,
    congrArg Prod.snd hopener, hinner, congrArg Prod.snd hlast, hrest⟩

end CountingLoop

/-! ## The loops of a program -/

/-- The node is the loop as it was written: it declares the name and gives it its first value, tests it against the limit, adds one to
it, and keeps the body with its braces. -/
def CountingLoop.ReadAt (c : CountingLoop) (f : Forest) (id : NodeId) : Prop :=
  ∃ initialization target condition left right update step body,
    f.node? id = some (.forLoop initialization condition update body) ∧
    f.node? initialization = some (.assignment (.node target) (.raw c.start)) ∧
    f.node? target = some (.var c.name (some "int")) ∧
    f.node? condition = some (.loopCondition left "<" right) ∧
    left.map (·.value) = [c.name] ∧ right.map (·.value) = [c.limit] ∧
    f.node? update = some (.assignment (.raw c.name) (.node step)) ∧
    f.node? step = some (.binary "+" (.raw c.name) (.raw "1")) ∧
    body.map (·.value) = "\x7b" :: (c.tokens.map (·.value) ++ ["\x7d"])

namespace CountingLoop

variable {c : CountingLoop} {f g : Forest}

theorem ReadAt.keep {id : NodeId} (h : c.ReadAt f id) (hfg : f.Keeps g) : c.ReadAt g id := by
  have hkeep : ∀ {id node}, f.node? id = some node → g.node? id = some node := fun hnode =>
    (hfg.node?_eq _ (Forest.lt_size_of_node? hnode)).trans hnode
  obtain ⟨initialization, target, condition, left, right, update, step, body, hloop, hinit, htarget, hcond, hleft, hright, hupdate,
    hstep, hbody⟩ := h
  exact ⟨initialization, target, condition, left, right, update, step, body, hkeep hloop, hkeep hinit, hkeep htarget, hkeep hcond,
    hleft, hright, hkeep hupdate, hkeep hstep, hbody⟩

/-- The six nodes of a loop that was read from what was written. -/
theorem readAt_of_holdsLoop {first : NodeId} {l : Loop} {body : List Token} (h : f.HoldsLoop first l body) (hl : l.Counts c)
    (hbody : body.map (·.value) = "\x7b" :: (c.tokens.map (·.value) ++ ["\x7d"])) : c.ReadAt f (first + 5) := by
  obtain ⟨htarget, hinit, hcond, hstep, hupdate, hloop, -⟩ := h
  rw [hl.target_name, hl.target_type] at htarget
  rw [hl.start] at hinit
  rw [hl.comparator] at hcond
  rw [hl.operator, hl.updated, hl.amount] at hstep
  rw [hl.updated] at hupdate
  exact ⟨_, _, _, _, _, _, _, _, hloop, hinit, htarget, hcond, hl.left, hl.right, hupdate, hstep, hbody⟩

end CountingLoop

namespace Parser

/-- The parser is sound, it has its first choices, and words are to come. -/
structure Before (p : Parser) (words : List (TokenKind × String)) : Prop where
  sound : p.Sound
  options : p.options = {}
  lookup : p.lookup = .relational
  rest_eq : p.cursor.rest.map Token.word = words

/-- Where the delimiters behind a keyword match and the header says a loop, a scan makes one step and adds the loop. -/
theorem exists_step_of_cut {p : Parser} {keyword : Token} {ts : List Token} {header body : Enclosure.Cut} {l : Loop} (hp : p.Sound)
    (hrest : p.cursor.rest = keyword :: ts) (hopen : keyword.is p.options.keyword = true)
    (hheader : Enclosure.header.cut? p.options.matching 0 ts = some header)
    (hbody : Enclosure.body.cut? p.options.matching 0 header.rest = some body)
    (hl : Loop.ofHeader p.lookup header.inner = .ok l) :
    ∃ q, p.Step q ∧ p.Continues q body.rest ∧ q.forest = p.forest.extend (.rootLoop l body.closed keyword.location) := by
  have hread := parseConstruct_of_cut (p := p.skip keyword ts) hp.reached.root_lt_size hp.no_opener keyword.location hheader hbody
  have hlookup : (p.skip keyword ts).lookup = p.lookup := rfl
  rw [hlookup, hl] at hread
  exact Parser.exists_step hp hrest hopen hread

/-- Before a loop that counts, a scan makes one step, and the root has the loop for its last child. -/
theorem Before.exists_step {p : Parser} {c : CountingLoop} {more : List (TokenKind × String)} (hp : p.Before (c.words ++ more)) :
    ∃ q loop, p.Step q ∧ q.Before more ∧ p.forest.Keeps q.forest ∧
      q.forest.children Forest.root = p.forest.children Forest.root ++ [loop] ∧ c.ReadAt q.forest loop := by
  obtain ⟨keyword, header, closer, opener, inner, last, rest, hrest, hkeyword, hheader, hcloser, hopener, hinner, hlast, hmore⟩ :=
    c.exists_tokens hp.rest_eq
  obtain ⟨l, hl, hcounts⟩ := c.exists_loop hheader
  obtain ⟨paren, clauses, rfl, hparen, hclauses⟩ := c.exists_opener hheader
  have hne : Enclosure.header.opening ≠ Enclosure.header.closing := Enclosure.opening_ne_closing (by decide)
  have hne' : Enclosure.body.opening ≠ Enclosure.body.closing := Enclosure.opening_ne_closing (by decide)
  have hcut := Enclosure.cut?_enclosed hne hparen hcloser hclauses (opener :: (inner ++ last :: rest))
  have hcut' := Enclosure.cut?_enclosed hne' hopener hlast (c.balanced.congr hinner) rest
  have hopen : keyword.is p.options.keyword = true := by rw [hp.options, Token.is_eq_true_iff, hkeyword]
  have hmatching : p.options.matching = .balanced := congrArg Options.matching hp.options
  obtain ⟨q, hstep, hq, hforest⟩ := exists_step_of_cut hp.sound hrest hopen (hmatching ▸ hcut) (hmatching ▸ hcut') (hp.lookup ▸ hl)
  have hroot := hp.sound.reached.root_lt_size
  have hbody : (opener :: inner ++ [last]).map (·.value) = "\x7b" :: (c.tokens.map (·.value) ++ ["\x7d"]) := by
    have hvalues := congrArg (List.map Prod.snd) hinner
    rw [List.map_map, List.map_map] at hvalues
    rw [List.map_append, List.map_cons, hopener, List.map_singleton, hlast]
    exact congrArg (fun values => "\x7b" :: (values ++ ["\x7d"])) hvalues
  refine ⟨q, p.forest.size + 5, hstep, ⟨hq.sound, hq.options.trans hp.options, hq.lookup.trans hp.lookup, ?_⟩, ?_, ?_, ?_⟩
  · rw [hq.rest_eq]
    exact hmore
  · rw [hforest]
    exact (Forest.keepsOwners_extend hroot _).toKeeps
  · rw [hforest, Forest.children_root_extend hroot]
  · rw [hforest]
    exact CountingLoop.readAt_of_holdsLoop (Forest.holdsLoop_extend hroot l _ keyword.location) hcounts hbody

/-- Before a program of loops that count, a scan comes to the end of the tokens, with a child of the root for each loop. -/
theorem Before.exists_scans {loops : List CountingLoop} {p : Parser} (hp : p.Before (loops.flatMap CountingLoop.words)) :
    ∃ q ids, p.Scans q ∧ q.cursor.rest = [] ∧ p.forest.Keeps q.forest ∧
      q.forest.children Forest.root = p.forest.children Forest.root ++ ids ∧
      List.Forall₂ (fun c id => CountingLoop.ReadAt c q.forest id) loops ids := by
  induction loops generalizing p with
  | nil =>
    have hend := List.map_eq_nil_iff.mp hp.rest_eq
    exact ⟨p, [], .refl, hend, (Forest.KeepsOwners.refl p.forest).toKeeps, (List.append_nil _).symm, .nil⟩
  | cons c loops ih =>
    rw [List.flatMap_cons] at hp
    obtain ⟨q, loop, hstep, hq, hkeeps, hchildren, hread⟩ := hp.exists_step
    obtain ⟨r, ids, hscans, hend, hkeeps', hchildren', hreads⟩ := ih hq
    refine ⟨r, loop :: ids, .step hstep hscans, hend, hkeeps.trans hkeeps', ?_, .cons (hread.keep hkeeps') hreads⟩
    rw [hchildren', hchildren, List.append_assoc]
    rfl

/-- A program of loops that count, each written on a line of its own, is read without a fault, and scanning it with the first choices
comes to the end. The loops of the forest are those of the program, one for each and in order: each declares its name of type `int`
with its first number, is tested by the name against its limit, adds one to the name, and keeps the tokens of its body with the braces
around them. No other loop is in the forest, whatever loops the bodies hold. -/
theorem parseProgram_counting (loops : List CountingLoop) :
    ∃ p q, ofSource (CountingLoop.program loops) = .ok p ∧ p.options = {} ∧ p.lookup = .relational ∧
      p.parseProgram = (.ok Forest.root, q) ∧
      List.Forall₂ (fun c id => CountingLoop.ReadAt c q.forest id) loops q.forest.forLoops ∧
      ∀ id node, q.forest.node? id = some node → node.isForLoop → id ∈ q.forest.forLoops := by
  obtain ⟨tokens, htokens, hwords⟩ := (CountingLoop.lexesTo_program loops).exists_tokensOf
  have hsource : ofSource (CountingLoop.program loops) = .ok (ofTokens tokens) := by
    rw [ofSource, htokens]
  have hbefore : (ofTokens tokens).Before (loops.flatMap CountingLoop.words) := ⟨.ofTokens tokens, rfl, rfl, hwords⟩
  obtain ⟨q, ids, hscans, hend, -, hchildren, hreads⟩ := hbefore.exists_scans
  have hparse : (ofTokens tokens).parseProgram = (.ok Forest.root, q) := hscans.parseProgram_eq.trans (parseProgram_of_nil hend)
  have hrun : (ofTokens tokens).run [.parseProgram] = q := congrArg Prod.snd hparse
  have hloops : q.forest.forLoops = q.forest.children Forest.root := hrun ▸ (Reached.shaped ⟨tokens, _, rfl⟩).forLoops_eq
  have hchildren : q.forest.forLoops = ids := hloops.trans hchildren
  refine ⟨_, q, hsource, rfl, rfl, hparse, hchildren ▸ hreads, fun id node hnode hloop => ?_⟩
  have hscan : ∀ call ∈ [Call.parseProgram], call.IsScan := by simp [Call.IsScan]
  obtain ⟨count, hrows⟩ := exists_rows_scans tokens hscan
  rw [hrun] at hrows
  rw [hloops]
  exact hrows.attached id node hnode hloop

/-- A loop with a loop in its body, whose last line is a comment. -/
def nestedLoop : CountingLoop where
  name := "_x1"
  start := "0"
  limit := "12"
  body := "for(;;)\x7b\x7d//\x7d"
  tokens := [⟨.keyword, "for", ⟨1, 1⟩⟩, ⟨.punctuation, "(", ⟨1, 4⟩⟩, ⟨.punctuation, ";", ⟨1, 5⟩⟩, ⟨.punctuation, ";", ⟨1, 6⟩⟩,
    ⟨.punctuation, ")", ⟨1, 7⟩⟩, ⟨.punctuation, "\x7b", ⟨1, 8⟩⟩, ⟨.punctuation, "\x7d", ⟨1, 9⟩⟩]
  isName := ⟨'_', ['x', '1'], rfl, by decide, by simp⟩
  isNumeral_start := ⟨by decide, by simp⟩
  isNumeral_limit := ⟨by decide, by simp⟩
  tokensOf_body := by decide +kernel
  balanced := by decide

theorem parseProgram_counting_nestedLoop :
    nestedLoop.text = "for(int _x1 = 0; _x1 < 12; _x1++)\x7b\nfor(;;)\x7b\x7d//\x7d\n\x7d" ∧
      ∃ p q, ofSource (CountingLoop.program [nestedLoop, nestedLoop]) = .ok p ∧ p.parseProgram = (.ok Forest.root, q) ∧
        List.Forall₂ (fun c id => CountingLoop.ReadAt c q.forest id) [nestedLoop, nestedLoop] q.forest.forLoops := by
  obtain ⟨p, q, hsource, -, -, hparse, hreads, -⟩ := parseProgram_counting [nestedLoop, nestedLoop]
  exact ⟨by decide +kernel, p, q, hsource, hparse, hreads⟩

end Parser

end LoopForest
