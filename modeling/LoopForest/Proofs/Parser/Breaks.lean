import LoopForest.Proofs.Parser.Reprint

/-!
# Line breaks in an outline

A literal is kept and printed as it is written. When it has a line break in it, the break is printed too, and then a line of an outline
is not one line of the text the outline makes. There is no other way for a line to have a break: every one stands in a literal that is
printed there, behind a backslash (`render_breaks`).

`BreaksWithin tokens text` says that the text has no line breaks but those in tokens that are written out in it. Texts put together of
such texts are such texts, so it is enough to look at what each node prints of its own (`forall_mem_render`).
-/

namespace LoopForest

/-! ## Line breaks in a text -/

/-- Every line break of the text stands in one of these tokens, which is written out there. -/
def BreaksWithin (tokens : List Token) (text : String) : Prop :=
  ∀ before behind, text.toList = before ++ '\n' :: behind → ∃ t ∈ tokens, ∃ ahead left right rest,
    before = ahead ++ left ∧ behind = right ++ rest ∧ t.value.toList = left ++ '\n' :: right

namespace BreaksWithin

variable {tokens : List Token}

theorem of_not_mem {text : String} (h : '\n' ∉ text.toList) : BreaksWithin tokens text := by
  intro before behind htext
  exact absurd (by simp [htext]) h

theorem value {t : Token} (ht : t ∈ tokens) : BreaksWithin tokens t.value := fun before behind hvalue =>
  ⟨t, ht, [], before, behind, [], rfl, (List.append_nil behind).symm, hvalue⟩

theorem append {s t : String} (hs : BreaksWithin tokens s) (ht : BreaksWithin tokens t) : BreaksWithin tokens (s ++ t) := by
  intro before behind htext
  rw [String.toList_append] at htext
  obtain ⟨more, rfl, hbehind⟩ | ⟨more, hstext, hbreak⟩ := List.append_eq_append_iff.mp htext
  · obtain ⟨u, hu, ahead, left, right, rest, rfl, rfl, hvalue⟩ := ht more behind hbehind
    exact ⟨u, hu, s.toList ++ ahead, left, right, rest, (List.append_assoc _ _ _).symm, rfl, hvalue⟩
  · cases more with
    | nil =>
      obtain ⟨u, hu, ahead, left, right, rest, hbefore, rfl, hvalue⟩ := ht [] behind hbreak.symm
      obtain ⟨rfl, rfl⟩ := List.append_eq_nil_iff.mp hbefore.symm
      exact ⟨u, hu, before, [], right, rest, (List.append_nil before).symm, rfl, hvalue⟩
    | cons c more =>
      obtain ⟨rfl, rfl⟩ := List.cons.inj hbreak
      obtain ⟨u, hu, ahead, left, right, rest, rfl, rfl, hvalue⟩ := hs before more hstext
      exact ⟨u, hu, ahead, left, right, rest ++ t.toList, rfl, List.append_assoc _ _ _, hvalue⟩

/-- Tokens on a line have no other line breaks than their own. -/
theorem joined {part : List Token} (h : part ⊆ tokens) : BreaksWithin tokens (Token.joined part) := by
  induction part with
  | nil => exact of_not_mem (by decide)
  | cons t ts ih =>
    obtain ⟨ht, hts⟩ := List.cons_subset.mp h
    cases ts with
    | nil =>
      rw [Token.joined, List.map_singleton, String.intercalate_singleton]
      exact value ht
    | cons u ts =>
      rw [Token.joined, List.map_cons, List.map_cons, String.intercalate_cons_cons, ← List.map_cons]
      exact ((value ht).append (of_not_mem (by decide))).append (ih hts)

theorem indentation (level : Nat) : BreaksWithin tokens (indentation level) := by
  refine of_not_mem fun hmem => ?_
  rw [LoopForest.indentation, String.toList_join, List.mem_flatMap] at hmem
  obtain ⟨s, hs, hmem⟩ := hmem
  rw [List.eq_of_mem_replicate hs] at hmem
  revert hmem
  decide

end BreaksWithin

/-! ## Line breaks in words -/

/-- A line break between two quotes stands behind a backslash. -/
theorem Quotable.escaped_break {quote : Char} {inner left right : List Char} (h : Quotable quote inner)
    (hinner : inner = left ++ '\n' :: right) : ∃ ahead, left = ahead ++ ['\\'] := by
  induction h generalizing left with
  | nil => simp at hinner
  | plain _ _ hbreak _ ih =>
    cases left with
    | nil => exact absurd (List.cons.inj hinner).1 hbreak
    | cons d left =>
      obtain ⟨ahead, rfl⟩ := ih (List.cons.inj hinner).2
      exact ⟨d :: ahead, rfl⟩
  | escaped c _ ih =>
    rcases left with _ | ⟨d, _ | ⟨e, left⟩⟩
    · exact absurd (List.cons.inj hinner).1 (by decide)
    · exact ⟨[], by rw [← (List.cons.inj hinner).1]; rfl⟩
    · obtain ⟨ahead, rfl⟩ := ih (List.cons.inj (List.cons.inj hinner).2).2
      exact ⟨d :: e :: ahead, rfl⟩

theorem Token.IsLexeme.stands {t : Token} (h : t.IsLexeme) : Stands t.kind t.value.toList [] := by
  obtain ⟨c, text, hvalue, hlexeme⟩ := h
  exact hvalue ▸ hlexeme.stands

/-- A word with a line break is a literal between two quotes, and the break stands behind a backslash. -/
theorem Stands.escaped_break {kind : TokenKind} {text rest left right : List Char} (h : Stands kind text rest)
    (htext : text = left ++ '\n' :: right) :
    kind = .literal ∧ (∃ ahead, left = ahead ++ ['\\']) ∧ ∃ quote, (quote = '\"' ∨ quote = '\'') ∧ text.getLast? = some quote := by
  have hmem : '\n' ∈ text := by simp [htext]
  obtain ⟨hword, hdigit, hpoint, -, -⟩ := blank_stops (b := '\n') (by decide)
  have hdigits : ∀ ds : List Char, (∀ d ∈ ds, d.isDigit) → '\n' ∉ ds := fun ds hds hbreak => hdigit (hds _ hbreak)
  cases h with
  | keyword hc hcs | identifier hc hcs =>
    rcases List.mem_cons.mp hmem with rfl | hmem
    · exact absurd hc (by decide)
    · exact absurd (hcs _ hmem) hword
  | whole hd hds => exact absurd hmem (hdigits _ (List.forall_mem_cons.mpr ⟨hd, hds⟩))
  | fraction hd hds he hes =>
    rcases List.mem_append.mp hmem with hmem | hmem
    · exact absurd hmem (hdigits _ (List.forall_mem_cons.mpr ⟨hd, hds⟩))
    · rcases List.mem_cons.mp hmem with hmem | hmem
      · exact absurd hmem hpoint
      · exact absurd hmem (hdigits _ (List.forall_mem_cons.mpr ⟨he, hes⟩))
  | @quoted quote inner hquote hinner =>
    have hbreak : quote ≠ '\n' := by rcases hquote with rfl | rfl <;> decide
    refine ⟨rfl, ?_, quote, hquote, List.getLast?_concat⟩
    cases left with
    | nil => exact absurd (List.cons.inj htext).1 hbreak
    | cons d left =>
      obtain ⟨rfl, hbehind⟩ := List.cons.inj htext
      have hclosed : inner ++ [quote] = left ++ '\n' :: right := hbehind
      -- the break is not the quote at the end, so it stands before that
      obtain ⟨more, -, hlast⟩ | ⟨more, hleft, hlast⟩ := List.append_eq_append_iff.mp hclosed
      · cases more with
        | nil => exact absurd (List.cons.inj hlast).1 hbreak
        | cons e more => simp at hlast
      · cases more with
        | nil => exact absurd (List.cons.inj hlast).1.symm hbreak
        | cons e more =>
          obtain ⟨rfl, -⟩ := List.cons.inj hlast
          obtain ⟨ahead, rfl⟩ := hinner.escaped_break hleft
          exact ⟨quote :: ahead, rfl⟩
  | mark hc => exact absurd (List.mem_singleton.mp hmem ▸ hc) (by decide)
  | pair h =>
    have hpairs : ∀ pair ∈ Piece.pairedOperators, pair.1 ≠ '\n' ∧ pair.2 ≠ '\n' := by decide
    simp [(hpairs _ h).1.symm, (hpairs _ h).2.symm] at hmem
  | single hc => exact absurd (List.mem_singleton.mp hmem ▸ hc) (by decide)

/-! ## What a loop says -/

/-- The texts that the nodes of a loop keep beside its tokens. -/
def Loop.texts (l : Loop) : List String :=
  l.initialization.target.type.toList ++ [l.initialization.target.name, l.initialization.value] ++
    [l.condition.comparator.value, l.update.operator, l.update.target, l.update.value]

section

variable {tokens part : List Token}

theorem Initialization.breaksWithin {i : Initialization} (h : Written part i) (hpart : part ⊆ tokens) :
    ∀ text ∈ i.target.type.toList ++ [i.target.name, i.value], BreaksWithin tokens text := by
  have hvalue : ∀ t ∈ part, BreaksWithin tokens t.value := fun t ht => .value (hpart ht)
  cases h with
  | declared type name assign value =>
    simp only [List.forall_mem_cons] at hvalue
    simpa using ⟨hvalue.1, hvalue.2.1, hvalue.2.2.2.1⟩
  | named name assign value =>
    simp only [List.forall_mem_cons] at hvalue
    simpa using ⟨hvalue.1, hvalue.2.2.1⟩

theorem Condition.breaksWithin {lookup : Lookup} {c : Condition} (h : Written lookup part c) (hpart : part ⊆ tokens) :
    BreaksWithin tokens c.comparator.value := by
  obtain ⟨-, hlt⟩ := h
  exact .value (hpart (List.getElem_mem hlt))

/-- A name in front of a step by one has no line break, since a word that ends in a step by one is no literal. -/
theorem Update.breaksWithin {u : Update} (h : Written part u) (hpart : part ⊆ tokens) (hlexemes : ∀ t ∈ tokens, t.IsLexeme) :
    ∀ text ∈ [u.operator, u.target, u.value], BreaksWithin tokens text := by
  have hvalue : ∀ t ∈ part, BreaksWithin tokens t.value := fun t ht => .value (hpart ht)
  have hstep : stepOperators ⊆ updateOperators := by decide
  have hoperators : ∀ op ∈ updateOperators, '\n' ∉ op.toList := by decide
  have hone : BreaksWithin tokens "1" := .of_not_mem (by decide)
  cases h with
  | @stepped t name op htext hname hop =>
    have hbreak : '\n' ∉ name.toList := fun hmem => by
      obtain ⟨left, right, hsplit⟩ := List.append_of_mem hmem
      have hvalue : t.value.toList = left ++ '\n' :: (right ++ (op ++ op).toList) := by simp [htext, hsplit]
      obtain ⟨-, -, quote, hquote, hlast⟩ := (hlexemes t (hpart List.mem_cons_self)).stands.escaped_break hvalue
      rw [htext] at hlast
      simp only [stepOperators, List.mem_cons, List.not_mem_nil, or_false] at hop
      rcases hop with rfl | rfl <;> rcases hquote with rfl | rfl <;> simp at hlast
    simpa using ⟨.of_not_mem (hoperators op (hstep hop)), .of_not_mem hbreak, hone⟩
  | apart target step htext hop =>
    simpa using ⟨.of_not_mem (hoperators _ (hstep hop)), hvalue target List.mem_cons_self, hone⟩
  | combined target assign value htext hop =>
    simp only [List.forall_mem_cons] at hvalue
    simpa using ⟨.of_not_mem (hoperators _ hop), hvalue.1, hvalue.2.2.1⟩

/-- Whatever is kept of a loop of lexed tokens, its line breaks stand in these tokens. -/
theorem Loop.breaksWithin {lookup : Lookup} {header : List Token} {l : Loop} (h : ofHeader lookup header = .ok l)
    (hheader : header ⊆ tokens) (hlexemes : ∀ t ∈ tokens, t.IsLexeme) : ∀ text ∈ l.texts, BreaksWithin tokens text := by
  have hread := readBy_ofHeader lookup header
  rw [h] at hread
  cases hread with
  | loop hclauses hi hc hu =>
    have hsub := fun clause hclause => List.Subset.trans (Header.tokens_subset hclauses clause hclause) hheader
    simp only [List.forall_mem_cons] at hsub
    obtain ⟨hinitialization, hcondition, hupdate, -⟩ := hsub
    have hi := Initialization.breaksWithin (Initialization.ofTokens_eq_ok_iff.mp (mapError_eq_ok_iff.mp hi)) hinitialization
    have hc := Condition.breaksWithin (Condition.ofTokens_eq_ok_iff.mp (mapError_eq_ok_iff.mp hc)) hcondition
    have hu := Update.breaksWithin (Update.ofTokens_eq_ok_iff.mp (mapError_eq_ok_iff.mp hu)) hupdate hlexemes
    exact List.forall_mem_append.mpr ⟨hi, List.forall_mem_cons.mpr ⟨hc, hu⟩⟩

end

/-! ## What a node prints -/

/-- Every line break that the node prints of its own stands in one of these tokens. -/
def Node.BreaksWithin (tokens : List Token) (node : Node) : Prop :=
  ∀ level, ∀ line ∈ Forest.linesAlone level node, LoopForest.BreaksWithin tokens line

section

variable {tokens : List Token}

theorem breaksWithin_header {node : Node} (h : ∀ detail ∈ node.detail, BreaksWithin tokens detail) :
    BreaksWithin tokens node.header := by
  have htitle : '\n' ∉ node.title.toList := by cases node <;> simp [Node.title]
  unfold Node.header
  cases hdetail : node.detail with
  | none => exact .of_not_mem htitle
  | some detail => exact ((BreaksWithin.of_not_mem htitle).append (.of_not_mem (by decide))).append (h detail hdetail)

/-- Operands print no other line breaks of their own than those in the texts among them. -/
theorem breaksWithin_operands {operands : List Operand} (h : ∀ text, .raw text ∈ operands → BreaksWithin tokens text) (level : Nat) :
    ∀ line ∈ operands.flatMap (·.shownLines (fun _ _ => []) level), BreaksWithin tokens line := by
  intro line hline
  obtain ⟨o, ho, hline⟩ := List.mem_flatMap.mp hline
  cases o with
  | node id => cases hline
  | raw text =>
    obtain rfl := List.mem_singleton.mp hline
    exact ((BreaksWithin.indentation level).append (.of_not_mem (by decide))).append (h text ho)

theorem breaksWithin_tokenLine {part : List Token} (h : part ⊆ tokens) (level : Nat) {label : String} (hlabel : '\n' ∉ label.toList) :
    BreaksWithin tokens (tokenLine level label part) :=
  (((BreaksWithin.indentation level).append (.of_not_mem hlabel)).append (.of_not_mem (by decide))).append (.joined h)

namespace Node.BreaksWithin

theorem intro {node : Node} (hdetail : ∀ detail ∈ node.detail, LoopForest.BreaksWithin tokens detail)
    (hcontents : ∀ level, ∀ line ∈ node.contents (fun _ _ => []) level, LoopForest.BreaksWithin tokens line) :
    node.BreaksWithin tokens := fun level =>
  List.forall_mem_cons.mpr ⟨(LoopForest.BreaksWithin.indentation level).append (breaksWithin_header hdetail), hcontents (level + 1)⟩

theorem var {name : String} {type : Option String} (hname : LoopForest.BreaksWithin tokens name)
    (htype : ∀ t ∈ type, LoopForest.BreaksWithin tokens t) : (Node.var name type).BreaksWithin tokens := by
  refine intro (fun detail hdetail => ?_) fun _ => nofun
  cases type with
  | none => exact Option.some.inj hdetail ▸ hname
  | some type =>
    obtain rfl := Option.some.inj hdetail
    exact ((hname.append (.of_not_mem (by decide))).append (htype type rfl)).append (.of_not_mem (by decide))

theorem assignment {left right : Operand} (h : ∀ text, .raw text ∈ [left, right] → LoopForest.BreaksWithin tokens text) :
    (Node.assignment left right).BreaksWithin tokens := intro nofun (breaksWithin_operands h)

theorem binary {operator : String} {left right : Operand} (hoperator : LoopForest.BreaksWithin tokens operator)
    (h : ∀ text, .raw text ∈ [left, right] → LoopForest.BreaksWithin tokens text) :
    (Node.binary operator left right).BreaksWithin tokens :=
  intro (fun _ hdetail => Option.some.inj hdetail ▸ hoperator) (breaksWithin_operands h)

theorem loopCondition {left right : List Token} {comparator : String} (hcomparator : LoopForest.BreaksWithin tokens comparator)
    (hleft : left ⊆ tokens) (hright : right ⊆ tokens) : (Node.loopCondition left comparator right).BreaksWithin tokens := by
  refine intro (fun _ hdetail => Option.some.inj hdetail ▸ hcomparator) fun level => ?_
  exact List.forall_mem_cons.mpr ⟨breaksWithin_tokenLine hleft level (by decide),
    List.forall_mem_singleton.mpr (breaksWithin_tokenLine hright level (by decide))⟩

theorem forLoop {initialization condition update : NodeId} {body : List Token} (hbody : body ⊆ tokens) :
    (Node.forLoop initialization condition update body).BreaksWithin tokens :=
  intro nofun fun level => List.forall_mem_singleton.mpr (breaksWithin_tokenLine hbody level (by decide))

end Node.BreaksWithin

/-- The nodes of a loop of lexed tokens print no other line breaks than those in the tokens. -/
theorem Addition.IsLoopOf.breaksWithin {a : Addition} (ha : a.IsLoopOf tokens) (hlexemes : ∀ t ∈ tokens, t.IsLexeme) (first : NodeId) :
    ∀ node ∈ a.nodes first, node.BreaksWithin tokens := by
  obtain ⟨location, hloop, hheader, hbody⟩ := ha
  have htexts := Loop.breaksWithin hloop hheader hlexemes
  simp only [Loop.texts, List.forall_mem_append, List.forall_mem_cons] at htexts
  obtain ⟨⟨htype, hname, hvalue, -⟩, hcomparator, hoperator, htarget, hchange, -⟩ := htexts
  obtain ⟨hcondition, hbody⟩ := List.append_subset.mp (Loop.of_ofHeader hloop hheader hbody).1
  obtain ⟨hleft, hright⟩ := List.append_subset.mp hcondition
  simp only [Addition.nodes, List.forall_mem_cons]
  exact ⟨.var hname fun t ht => htype t (Option.mem_toList.mpr ht), .assignment (by simpa using hvalue),
    .loopCondition hcomparator hleft hright, .binary hoperator (by simpa using ⟨htarget, hchange⟩), .assignment (by simpa using htarget),
    .forLoop hbody, List.forall_mem_nil _⟩

end

/-! ## Splitting an outline -/

/-- What is between line breaks has none. -/
theorem not_mem_of_mem_splitOn {text part : List Char} {c : Char} (h : part ∈ text.splitOn c) : c ∉ part := by
  induction text generalizing part with
  | nil => simp_all
  | cons d text ih =>
    rw [List.splitOn_cons_eq_if_modifyHead] at h
    obtain ⟨first, parts, hparts⟩ := List.exists_cons_of_ne_nil (List.splitOn_ne_nil c text)
    rw [hparts] at h ih
    obtain ⟨hfirst, hrest⟩ := List.forall_mem_cons.mp fun part (hpart : part ∈ first :: parts) => ih hpart
    split at h
    · rcases List.mem_cons.mp h with rfl | h
      · exact List.not_mem_nil
      · exact ih h
    · next hne =>
      rcases List.mem_cons.mp h with rfl | h
      · exact fun hmem => (List.mem_cons.mp hmem).elim (fun heq => hne (beq_iff_eq.mpr heq.symm)) hfirst
      · exact hrest part h

namespace Forest

variable {f : Forest}

/-- The lines of an outline are found again between its line breaks exactly when none of them has one. -/
theorem splitOn_toText_iff (hf : f.Linked) (hg : f.Grounded) {id : NodeId} (hid : id < f.size) :
    (f.toText id).toList.splitOn '\n' = (f.render id 0).map String.toList ↔ ∀ line ∈ f.render id 0, '\n' ∉ line.toList := by
  have htext : (f.toText id).toList = ['\n'].intercalate ((f.render id 0).map String.toList) := String.toList_intercalate
  constructor
  · intro h line hline
    have hpart : line.toList ∈ (f.toText id).toList.splitOn '\n' := h ▸ List.mem_map_of_mem hline
    exact not_mem_of_mem_splitOn hpart
  · intro h
    obtain ⟨e, he⟩ := exists_get? hid
    rw [htext]
    refine List.splitOn_intercalate '\n' (by simpa using h) ?_
    rw [render_node hf hg he]
    exact List.cons_ne_nil _ _

end Forest

namespace Parser

/-- In what is printed of a lexed program, however it was scanned, every line break of a line stands in a literal of the program that is
written out there, between the quotes and behind a backslash. So no line has one when no literal has. The lines are found again by
splitting the text of a node at its line breaks exactly when none of them has a break of its own. -/
theorem render_breaks {source : String} {p : Parser} (h : ofSource source = .ok p) {calls : List Call}
    (hscan : ∀ call ∈ calls, call.IsScan) :
    let f := (p.run calls).forest
    (∀ id level, ∀ line ∈ f.render id level, ∀ before behind, line.toList = before ++ '\n' :: behind →
      ∃ t ∈ p.cursor.tokens, t.kind = .literal ∧ ∃ ahead left right rest,
        before = ahead ++ (left ++ ['\\']) ∧ behind = right ++ rest ∧ t.value.toList = left ++ '\\' :: '\n' :: right) ∧
    ((∀ t ∈ p.cursor.tokens, t.kind = .literal → ¬['\\', '\n'] <:+: t.value.toList) →
      ∀ id level, ∀ line ∈ f.render id level, '\n' ∉ line.toList) ∧
    ∀ id < f.size, (f.toText id).toList.splitOn '\n' = (f.render id 0).map String.toList ↔
      ∀ line ∈ f.render id 0, '\n' ∉ line.toList := by
  intro f
  obtain ⟨⟨tokens, rfl⟩, hlexemes⟩ := isLexeme_of_ofSource h
  have hsound := Sound.ofTokens tokens
  have hreached : f.Reached := (hsound.run calls).reached
  have hnodes : f.AllNodes (Node.BreaksWithin (ofTokens tokens).cursor.tokens) :=
    (hsound.builds_scans hscan).keeps (P := (·.AllNodes _)) (Forest.allNodes_empty (.intro nofun fun _ => nofun)) fun g a ha hg =>
      hg.extend (ha.breaksWithin hlexemes g.size)
  have hbreaks : ∀ id level, ∀ line ∈ f.render id level, ∀ before behind, line.toList = before ++ '\n' :: behind →
      ∃ t ∈ (ofTokens tokens).cursor.tokens, t.kind = .literal ∧ ∃ ahead left right rest,
        before = ahead ++ (left ++ ['\\']) ∧ behind = right ++ rest ∧ t.value.toList = left ++ '\\' :: '\n' :: right := by
    intro id level line hline before behind htext
    obtain ⟨t, ht, ahead, left, right, rest, rfl, rfl, hvalue⟩ :=
      Forest.forall_mem_render hreached.linked hreached.grounded hnodes id level line hline before behind htext
    obtain ⟨hkind, ⟨inner, rfl⟩, -⟩ := (hlexemes t ht).stands.escaped_break hvalue
    exact ⟨t, ht, hkind, ahead, inner, right, rest, rfl, rfl, by simpa using hvalue⟩
  refine ⟨hbreaks, fun hliterals id level line hline hmem => ?_, fun id hid =>
    Forest.splitOn_toText_iff hreached.linked hreached.grounded hid⟩
  obtain ⟨before, behind, htext⟩ := List.append_of_mem hmem
  obtain ⟨t, ht, hkind, -, left, right, -, -, -, hvalue⟩ := hbreaks id level line hline before behind htext
  exact hliterals t ht hkind ⟨left, right, by simpa using hvalue.symm⟩

/-- The statement at a program that compares with a literal over two lines, and at one with a backslash and an `n` in a literal. -/
theorem render_breaks_twoLines :
    (∃ p, ofSource "for(i=0;i<\"a\\\nb\";i++)\x7b\x7d" = .ok p ∧
      (p.run [.parseProgram]).forest.render 3 0 = ["Loop Condition: <", "  Left: i", "  Right: \"a\\\nb\""] ∧
      (∃ t ∈ p.cursor.tokens, t.kind = .literal ∧ ∃ ahead left right rest, "  Right: \"a\\".toList = ahead ++ (left ++ ['\\']) ∧
        "b\"".toList = right ++ rest ∧ t.value.toList = left ++ '\\' :: '\n' :: right) ∧
      ((p.run [.parseProgram]).forest.toText 2).toList.splitOn '\n' =
        ["Assignment".toList, "  Variable: i".toList, "  Operand: 0".toList]) ∧
    ∃ p, ofSource "for(s=\"\\n\";s<1;s++)\x7b\x7d" = .ok p ∧
      (p.run [.parseProgram]).forest.render 2 0 = ["Assignment", "  Variable: s", "  Operand: \"\\n\""] ∧
      ∀ id level, ∀ line ∈ (p.run [.parseProgram]).forest.render id level, '\n' ∉ line.toList := by
  have hscan : ∀ call ∈ [Call.parseProgram], call.IsScan := by simp [Call.IsScan]
  constructor
  · have hlines : ((ofSource "for(i=0;i<\"a\\\nb\";i++)\x7b\x7d").toOption.map fun p =>
        let f := (p.run [.parseProgram]).forest
        (f.size, f.render 3 0, f.render 2 0)) =
        some (7, ["Loop Condition: <", "  Left: i", "  Right: \"a\\\nb\""], ["Assignment", "  Variable: i", "  Operand: 0"]) := by cbv
    cases hsource : ofSource "for(i=0;i<\"a\\\nb\";i++)\x7b\x7d" with
    | error e =>
      rw [hsource] at hlines
      cases hlines
    | ok p =>
      rw [hsource] at hlines
      obtain ⟨hsize, hcondition, hassignment⟩ : (p.run [.parseProgram]).forest.size = 7 ∧ _ ∧ _ := by
        simpa only [Except.toOption, Option.map_some, Option.some.injEq, Prod.mk.injEq] using hlines
      obtain ⟨hbreaks, -, hsplit⟩ := render_breaks hsource hscan
      have hline : "  Right: \"a\\\nb\"" ∈ (p.run [.parseProgram]).forest.render 3 0 := hcondition ▸ by simp
      refine ⟨p, rfl, hcondition, hbreaks 3 0 _ hline _ _ (by decide), ?_⟩
      have htext := (hsplit 2 (by rw [hsize]; decide)).mpr (by rw [hassignment]; decide)
      rw [htext, hassignment]
      rfl
  · have hlines : ((ofSource "for(s=\"\\n\";s<1;s++)\x7b\x7d").toOption.map fun p =>
        (p.cursor.tokens.all fun t => decide (t.kind = .literal → ¬['\\', '\n'] <:+: t.value.toList),
          (p.run [.parseProgram]).forest.render 2 0)) =
        some (true, ["Assignment", "  Variable: s", "  Operand: \"\\n\""]) := by cbv
    cases hsource : ofSource "for(s=\"\\n\";s<1;s++)\x7b\x7d" with
    | error e =>
      rw [hsource] at hlines
      cases hlines
    | ok p =>
      rw [hsource] at hlines
      obtain ⟨hliterals, hassignment⟩ : p.cursor.tokens.all _ = true ∧ _ := by
        simpa only [Except.toOption, Option.map_some, Option.some.injEq, Prod.mk.injEq] using hlines
      obtain ⟨-, hnone, -⟩ := render_breaks hsource hscan
      exact ⟨p, rfl, hassignment, hnone fun t ht => of_decide_eq_true (List.all_eq_true.mp hliterals t ht)⟩

/-- A literal with an escaped line break makes a line of an outline two lines of the text. -/
theorem outline_line_broken :
    ∃ p, ofSource "for(i=\"\\\n\";i<1;i++)\x7b\x7d" = .ok p ∧ 2 < (p.run [.parseProgram]).forest.size ∧
      (p.run [.parseProgram]).forest.render 2 0 = ["Assignment", "  Variable: i", "  Operand: \"\\\n\""] ∧
      ¬(∀ line ∈ (p.run [.parseProgram]).forest.render 2 0, '\n' ∉ line.toList) ∧
      ((p.run [.parseProgram]).forest.toText 2).toList.splitOn '\n' ≠
        ((p.run [.parseProgram]).forest.render 2 0).map String.toList := by
  have hlines : ((ofSource "for(i=\"\\\n\";i<1;i++)\x7b\x7d").toOption.map fun p =>
      ((p.run [.parseProgram]).forest.size, (p.run [.parseProgram]).forest.render 2 0)) =
      some (7, ["Assignment", "  Variable: i", "  Operand: \"\\\n\""]) := by cbv
  cases hsource : ofSource "for(i=\"\\\n\";i<1;i++)\x7b\x7d" with
  | error e =>
    rw [hsource] at hlines
    cases hlines
  | ok p =>
    rw [hsource] at hlines
    obtain ⟨hsize, hrender⟩ : (p.run [.parseProgram]).forest.size = 7 ∧ _ := by
      simpa only [Except.toOption, Option.map_some, Option.some.injEq, Prod.mk.injEq] using hlines
    refine ⟨p, rfl, hsize ▸ by decide, hrender, hrender ▸ by decide, ?_⟩
    rw [Forest.toText, hrender]
    decide +kernel

end Parser

end LoopForest
