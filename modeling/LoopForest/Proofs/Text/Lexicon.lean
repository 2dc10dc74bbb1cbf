import LoopForest.Proofs.Text.Layout

/-!
# Which texts are words

`Stands kind text rest` says when a text is a word of a kind before the rest of a source: it has the form of such a word, and it does not
go on in the rest. This is a grammar, with no scanning in it. What the scanners of `Piece.cut` read behind the first character of a word
is just what the grammar says (`lexemeBy_iff_stands`): whatever they read stands, and nothing that stands is read in another way.

A word that stands in one place stands at the end of a text and before a blank as well, whatever came behind it there (`Stands.alone`,
`Stands.followed`), and so does a lexeme that is cut off some text.

A token says where it stands by a line and a column, which no two beginnings of a text share (`Location.behind_inj_of_append`). So
`tokensOf_stand` finds each token of a source at one place and at no other, and has it stand there.
-/

namespace LoopForest

/-- What may stand between the quotes of a literal: a backslash with whatever character is behind it, and any other character but the
quote and the line break. -/
inductive Quotable (quote : Char) : List Char → Prop where
  | nil : Quotable quote []
  | plain {c : Char} {cs : List Char} (hquote : c ≠ quote) (hback : c ≠ '\\') (hbreak : c ≠ '\n') (h : Quotable quote cs) :
    Quotable quote (c :: cs)
  | escaped (c : Char) {cs : List Char} (h : Quotable quote cs) : Quotable quote ('\\' :: c :: cs)

/-- A letter, a digit or an underscore. -/
def IsWordChar (c : Char) : Prop := c.isAlphanum ∨ c = '_'

theorem isWordChar_iff (c : Char) : Piece.isWordChar c ↔ IsWordChar c := by
  simp [Piece.isWordChar, IsWordChar]

theorem isWordStart_iff (c : Char) : Piece.isWordStart c ↔ c.isAlpha ∨ c = '_' := by
  simp [Piece.isWordStart]

/-- The text is a word of this kind before `rest`. -/
inductive Stands : TokenKind → List Char → List Char → Prop where
  /-- A letter or an underscore and then letters, digits and underscores, as many as there are, that the table of keywords has. -/
  | keyword {c : Char} {cs rest : List Char} (hc : c.isAlpha ∨ c = '_') (hcs : ∀ d ∈ cs, IsWordChar d)
    (hrest : ∀ d ∈ rest.head?, ¬IsWordChar d) (hmem : String.ofList (c :: cs) ∈ Piece.keywords) : Stands .keyword (c :: cs) rest
  /-- The same, when the table does not have it. -/
  | identifier {c : Char} {cs rest : List Char} (hc : c.isAlpha ∨ c = '_') (hcs : ∀ d ∈ cs, IsWordChar d)
    (hrest : ∀ d ∈ rest.head?, ¬IsWordChar d) (hmem : String.ofList (c :: cs) ∉ Piece.keywords) : Stands .identifier (c :: cs) rest
  /-- Digits, as many as there are, when no point with a digit behind it comes next. -/
  | whole {d : Char} {ds rest : List Char} (hd : d.isDigit) (hds : ∀ c ∈ ds, c.isDigit) (hrest : ∀ c ∈ rest.head?, ¬c.isDigit)
    (hpoint : ∀ e more, rest = '.' :: e :: more → ¬e.isDigit) : Stands .literal (d :: ds) rest
  /-- Digits, a point, and digits, as many as there are. -/
  | fraction {d e : Char} {ds es rest : List Char} (hd : d.isDigit) (hds : ∀ c ∈ ds, c.isDigit) (he : e.isDigit)
    (hes : ∀ c ∈ es, c.isDigit) (hrest : ∀ c ∈ rest.head?, ¬c.isDigit) : Stands .literal (d :: ds ++ '.' :: e :: es) rest
  /-- A quote, what may stand between two of them, and the same quote again. -/
  | quoted {quote : Char} {inner : List Char} (hquote : quote = '\"' ∨ quote = '\'') (h : Quotable quote inner) (rest : List Char) :
    Stands .literal (quote :: inner ++ [quote]) rest
  /-- A mark. -/
  | mark {c : Char} (hc : c ∈ Piece.punctuation) (rest : List Char) : Stands .punctuation [c] rest
  /-- An operator of two characters. -/
  | pair {c d : Char} (h : (c, d) ∈ Piece.pairedOperators) (rest : List Char) : Stands .operator [c, d] rest
  /-- An operator of one character, when the next one does not make one of two characters or a comment of it. -/
  | single {c : Char} {rest : List Char} (hc : c ∈ Piece.operators) (hpair : ∀ d ∈ rest.head?, (c, d) ∉ Piece.pairedOperators)
    (hcomment : c = '/' → ∀ d ∈ rest.head?, d ≠ '/' ∧ d ≠ '*') : Stands .operator [c] rest

namespace Piece

/-! ## Literals between quotes -/

/-- A literal that is closed is one by the grammar. -/
theorem exists_quotable {quote : Char} {cs text rest : List Char} (h : throughQuote quote cs = (true, text, rest)) :
    ∃ inner, Quotable quote inner ∧ text = inner ++ [quote] := by
  fun_induction throughQuote quote cs generalizing text rest with
  | case1 => cases h
  | case2 => cases h
  | case3 => cases h
  | case4 d ds closed text' rest' heq hline ih =>
    obtain ⟨rfl, rfl, rfl⟩ : closed = true ∧ '\\' :: d :: text' = text ∧ rest' = rest := by simpa using h
    obtain ⟨inner, hinner, rfl⟩ := ih heq
    exact ⟨'\\' :: d :: inner, .escaped d hinner, rfl⟩
  | case5 cs hline hback =>
    obtain ⟨rfl, rfl⟩ : [quote] = text ∧ cs = rest := by simpa using h
    exact ⟨[], .nil, rfl⟩
  | case6 c cs hline hback hquote closed text' rest' heq ih =>
    obtain ⟨rfl, rfl, rfl⟩ : closed = true ∧ c :: text' = text ∧ rest' = rest := by simpa using h
    obtain ⟨inner, hinner, rfl⟩ := ih heq
    exact ⟨c :: inner, .plain hquote hback hline hinner, rfl⟩

/-- What may stand between two quotes does not close the literal. -/
theorem throughQuote_quotable {quote : Char} (hquote : quote = '\"' ∨ quote = '\'') {inner : List Char} (h : Quotable quote inner)
    (rest : List Char) : throughQuote quote (inner ++ quote :: rest) = (true, inner ++ [quote], rest) := by
  have hbreak : quote ≠ '\n' := by rcases hquote with rfl | rfl <;> decide
  have hback : quote ≠ '\\' := by rcases hquote with rfl | rfl <;> decide
  induction h with
  | nil =>
    rw [List.nil_append, throughQuote.eq_def]
    simp [hbreak, hback]
  | plain hquote hback hbreak _ ih =>
    rw [List.cons_append, throughQuote.eq_def]
    simp [hquote, hback, hbreak, ih]
  | escaped c _ ih =>
    rw [List.cons_append, List.cons_append, throughQuote.eq_def]
    simp [ih]

/-! ## Numbers -/

/-- Digits that no point with a digit behind it follows are a number. -/
theorem restOfNumber_whole {ds rest : List Char} (hds : ∀ d ∈ ds, d.isDigit) (hrest : ∀ d ∈ rest.head?, ¬d.isDigit)
    (hpoint : ∀ e more, rest = '.' :: e :: more → ¬e.isDigit) : restOfNumber (ds ++ rest) = (ds, rest) := by
  obtain ⟨htake, hdrop⟩ := takeWhile_run hds hrest
  unfold restOfNumber
  rw [htake, hdrop]
  split
  · next e more => rw [if_neg (hpoint e more rfl)]
  · rfl

/-- Digits, a point and digits are a number. -/
theorem restOfNumber_fraction {ds es rest : List Char} {e : Char} (hds : ∀ d ∈ ds, d.isDigit) (he : e.isDigit)
    (hes : ∀ d ∈ es, d.isDigit) (hrest : ∀ d ∈ rest.head?, ¬d.isDigit) :
    restOfNumber (ds ++ '.' :: e :: es ++ rest) = (ds ++ '.' :: e :: es, rest) := by
  obtain ⟨htake, hdrop⟩ := takeWhile_run hes hrest
  have hpoint : ∀ d ∈ ('.' :: e :: (es ++ rest)).head?, ¬d.isDigit := fun d hd => by
    obtain rfl := Option.some.inj hd
    decide
  obtain ⟨htake', hdrop'⟩ := takeWhile_run hds hpoint
  have happend : ds ++ '.' :: e :: es ++ rest = ds ++ '.' :: e :: (es ++ rest) := by simp
  unfold restOfNumber
  rw [happend, htake', hdrop']
  simp only [if_pos he, htake, hdrop]

/-- A number is digits that no point with a digit behind it follows, or it is digits, a point and more digits. Either way it takes all
the digits there are. -/
theorem restOfNumber_cases (cs : List Char) :
    (∃ ds rest, (∀ c ∈ ds, c.isDigit) ∧ (∀ c ∈ rest.head?, ¬c.isDigit) ∧ (∀ e more, rest = '.' :: e :: more → ¬e.isDigit) ∧
        restOfNumber cs = (ds, rest)) ∨
      ∃ ds d es rest, (∀ c ∈ ds, c.isDigit) ∧ d.isDigit ∧ (∀ c ∈ es, c.isDigit) ∧ (∀ c ∈ rest.head?, ¬c.isDigit) ∧
        restOfNumber cs = (ds ++ '.' :: d :: es, rest) := by
  have hall : ∀ ds : List Char, ∀ c ∈ ds.takeWhile Char.isDigit, c.isDigit := fun ds c hc => List.mem_takeWhile_imp hc
  unfold restOfNumber
  split
  · next d ds hdrop =>
    by_cases hd : d.isDigit
    · exact Or.inr ⟨_, d, _, _, hall cs, hd, hall ds, not_head?_dropWhile _ ds, by rw [if_pos hd]⟩
    · have hpoint : ∀ c ∈ ('.' :: d :: ds).head?, ¬c.isDigit := hdrop ▸ not_head?_dropWhile _ cs
      refine Or.inl ⟨_, '.' :: d :: ds, hall cs, hpoint, ?_, by rw [if_neg hd]⟩
      rintro e more heq
      obtain ⟨rfl, -⟩ := List.cons.inj (List.cons.inj heq).2
      exact hd
  · next hother => exact Or.inl ⟨_, _, hall cs, not_head?_dropWhile _ cs, fun e more heq => absurd heq (hother e more), rfl⟩

end Piece

/-! ## The grammar is what the scanners read -/

/-- A letter or an underscore and then letters, digits and underscores are a word of the kind that the table of keywords gives it. -/
theorem Stands.word {c : Char} {cs rest : List Char} (hc : c.isAlpha ∨ c = '_') (hcs : ∀ d ∈ cs, IsWordChar d)
    (hrest : ∀ d ∈ rest.head?, ¬IsWordChar d) : Stands (Piece.wordKind (c :: cs)) (c :: cs) rest := by
  unfold Piece.wordKind
  split
  · next hmem => exact .keyword hc hcs hrest hmem
  · next hmem => exact .identifier hc hcs hrest hmem

theorem Piece.LexemeBy.stands {c : Char} {cs text rest : List Char} {kind : TokenKind} (h : Piece.LexemeBy c cs kind text rest) :
    Stands kind (c :: text) rest := by
  cases h with
  | quoted hquote hclosed =>
    obtain ⟨inner, hinner, rfl⟩ := Piece.exists_quotable hclosed
    exact .quoted hquote hinner rest
  | number hdigit hcut =>
    rcases Piece.restOfNumber_cases cs with ⟨ds, more, hds, hrest, hpoint, heq⟩ | ⟨ds, e, es, more, hds, he, hes, hrest, heq⟩ <;>
      obtain ⟨rfl, rfl⟩ := Prod.mk.inj (heq.symm.trans hcut)
    · exact .whole hdigit hds hrest hpoint
    · exact .fraction hdigit hds he hes hrest
  | word hstart hcut =>
    obtain ⟨rfl, rfl⟩ := Prod.mk.inj hcut
    have hc := (isWordStart_iff c).mp hstart
    have hcs : ∀ d ∈ cs.takeWhile Piece.isWordChar, IsWordChar d := fun d hd =>
      (isWordChar_iff d).mp (List.mem_takeWhile_imp hd)
    have hrest : ∀ d ∈ (cs.dropWhile Piece.isWordChar).head?, ¬IsWordChar d := fun d hd hchar =>
      Piece.not_head?_dropWhile _ cs d hd ((isWordChar_iff d).mpr hchar)
    exact .word hc hcs hrest
  | mark hmark => exact .mark hmark cs
  | operator hoperator hline hcomment hcut =>
    cases cs with
    | nil =>
      obtain ⟨rfl, rfl⟩ := Prod.mk.inj hcut
      exact .single hoperator nofun fun _ => nofun
    | cons d cs =>
      rw [Piece.restOfOperator] at hcut
      by_cases hpair : (c, d) ∈ Piece.pairedOperators
      · rw [if_pos hpair] at hcut
        obtain ⟨rfl, rfl⟩ := Prod.mk.inj hcut
        exact .pair hpair cs
      · rw [if_neg hpair] at hcut
        obtain ⟨rfl, rfl⟩ := Prod.mk.inj hcut
        refine .single hoperator (by simpa using hpair) fun hslash => ?_
        simpa [hslash] using And.intro hline hcomment

theorem Stands.lexemeBy {c : Char} {text rest : List Char} {kind : TokenKind} (h : Stands kind (c :: text) rest) :
    Piece.LexemeBy c (text ++ rest) kind text rest := by
  have hword : (c.isAlpha ∨ c = '_') → (∀ d ∈ text, IsWordChar d) → (∀ d ∈ rest.head?, ¬IsWordChar d) →
      Piece.LexemeBy c (text ++ rest) (Piece.wordKind (c :: text)) text rest := by
    intro hc htext hrest
    have hall : ∀ d ∈ text, Piece.isWordChar d := fun d hd => (isWordChar_iff d).mpr (htext d hd)
    have hstop : ∀ d ∈ rest.head?, ¬Piece.isWordChar d := fun d hd hchar => hrest d hd ((isWordChar_iff d).mp hchar)
    obtain ⟨htake, hdrop⟩ := Piece.takeWhile_run hall hstop
    exact .word ((isWordStart_iff c).mpr hc) (Prod.ext htake hdrop)
  cases h with
  | keyword hc htext hrest hmem =>
    have hkind : Piece.wordKind (c :: text) = .keyword := if_pos hmem
    exact hkind ▸ hword hc htext hrest
  | identifier hc htext hrest hmem =>
    have hkind : Piece.wordKind (c :: text) = .identifier := if_neg hmem
    exact hkind ▸ hword hc htext hrest
  | whole hd hds hrest hpoint => exact .number hd (Piece.restOfNumber_whole hds hrest hpoint)
  | fraction hd hds he hes hrest => exact .number hd (Piece.restOfNumber_fraction hds he hes hrest)
  | @quoted _ inner hquote hinner =>
    have happend : inner ++ [c] ++ rest = inner ++ c :: rest := by simp
    exact .quoted hquote ((congrArg _ happend).trans (Piece.throughQuote_quotable hquote hinner rest))
  | mark hmark => exact .mark hmark
  | @pair _ d hpair =>
    have hfirst : ∀ pair ∈ Piece.pairedOperators, pair.1 ∈ Piece.operators ∧ (pair.1 = '/' → pair.2 ≠ '/' ∧ pair.2 ≠ '*') := by decide
    obtain ⟨hoperator, hslash⟩ := hfirst _ hpair
    refine .operator hoperator ?_ ?_ (if_pos hpair)
    · rintro ⟨hc, hd⟩
      exact (hslash hc).1 (Option.some.inj hd)
    · rintro ⟨hc, hd⟩
      exact (hslash hc).2 (Option.some.inj hd)
  | single hoperator hpair hcomment =>
    refine .operator hoperator ?_ ?_ ?_
    · rintro ⟨hc, hd⟩
      exact (hcomment hc _ hd).1 rfl
    · rintro ⟨hc, hd⟩
      exact (hcomment hc _ hd).2 rfl
    · cases rest with
      | nil => rfl
      | cons d rest => exact if_neg (hpair d rfl)

/-- The scanners read a word behind its first character exactly when the word stands before what they leave. -/
theorem lexemeBy_iff_stands {c : Char} {cs text rest : List Char} {kind : TokenKind} :
    Piece.LexemeBy c cs kind text rest ↔ cs = text ++ rest ∧ Stands kind (c :: text) rest := by
  constructor
  · intro h
    exact ⟨h.append_eq.symm, h.stands⟩
  · rintro ⟨rfl, h⟩
    exact h.lexemeBy

/-! ## In another place -/

namespace Stands

variable {kind : TokenKind} {text rest : List Char}

/-- A word still stands when less of the text behind it is there. -/
theorem truncated {more : List Char} (h : Stands kind text (rest ++ more)) : Stands kind text rest := by
  have hhead {φ : Char → Prop} (hmore : ∀ d ∈ (rest ++ more).head?, φ d) : ∀ d ∈ rest.head?, φ d := by
    cases rest with
    | nil => exact nofun
    | cons d rest => exact hmore
  generalize hbehind : rest ++ more = behind at h hhead
  cases h with
  | keyword hc hcs hrest hmem => exact .keyword hc hcs (hhead hrest) hmem
  | identifier hc hcs hrest hmem => exact .identifier hc hcs (hhead hrest) hmem
  | whole hd hds hrest hpoint =>
    refine .whole hd hds (hhead hrest) fun e tail heq => hpoint e (tail ++ more) ?_
    rw [← hbehind, heq]
    rfl
  | fraction hd hds he hes hrest => exact .fraction hd hds he hes (hhead hrest)
  | quoted hquote h => exact .quoted hquote h rest
  | mark hc => exact .mark hc rest
  | pair h => exact .pair h rest
  | single hc hpair hcomment => exact .single hc (hhead hpair) fun hc => hhead (hcomment hc)

/-- A word stands at the end of a text. -/
theorem alone (h : Stands kind text rest) : Stands kind text [] :=
  have hnil : Stands kind text ([] ++ rest) := h
  hnil.truncated

theorem head?_followed {φ : Char → Prop} (hrest : ∀ d ∈ rest.head?, φ d) {b : Char} (hb : φ b) (more : List Char) :
    ∀ d ∈ (rest ++ b :: more).head?, φ d := by
  cases rest with
  | nil => simpa using hb
  | cons d rest => simpa using hrest

/-- A blank goes on with no number and no word, and it is the second half of no operator. -/
theorem blank_stops {b : Char} (hb : b ∈ Piece.blanks) : ¬IsWordChar b ∧ ¬b.isDigit ∧ b ≠ '.' ∧ b ≠ '/' ∧ b ≠ '*' := by
  rw [← isWordChar_iff]
  simp only [Piece.blanks, List.mem_cons, List.not_mem_nil, or_false] at hb
  rcases hb with rfl | rfl | rfl | rfl <;> decide

/-- A word stands before a blank and more text just as it does before the text in front of the blank. -/
theorem followed (h : Stands kind text rest) {b : Char} (hb : b ∈ Piece.blanks) (more : List Char) :
    Stands kind text (rest ++ b :: more) := by
  obtain ⟨hword, hdigit, hpoint, hslash, hstar⟩ := blank_stops hb
  cases h with
  | keyword hc hcs hrest hmem => exact .keyword hc hcs (head?_followed hrest hword more) hmem
  | identifier hc hcs hrest hmem => exact .identifier hc hcs (head?_followed hrest hword more) hmem
  | whole hd hds hrest hfraction =>
    refine .whole hd hds (head?_followed hrest hdigit more) ?_
    intro e more' heq
    rcases rest with _ | ⟨x, _ | ⟨y, rest⟩⟩ <;> obtain ⟨hfirst, heq⟩ := List.cons.inj heq
    · exact absurd hfirst hpoint
    · exact (List.cons.inj heq).1 ▸ hdigit
    · exact (List.cons.inj heq).1 ▸ hfraction y rest (by rw [hfirst])
  | fraction hd hds he hes hrest => exact .fraction hd hds he hes (head?_followed hrest hdigit more)
  | quoted hquote h => exact .quoted hquote h _
  | mark hc => exact .mark hc _
  | pair h => exact .pair h _
  | @single c _ hc hpair hcomment =>
    have hsecond : ∀ pair ∈ Piece.pairedOperators, pair.2 ∉ Piece.blanks := by decide
    have hpair' : (c, b) ∉ Piece.pairedOperators := fun hm => hsecond _ hm hb
    exact .single hc (head?_followed hpair hpair' more) fun hc => head?_followed (hcomment hc) ⟨hslash, hstar⟩ more

end Stands

namespace Piece.LexemeBy

variable {c : Char} {cs text rest : List Char} {kind : TokenKind}

/-- A lexeme is cut off in the same way when less of the text behind it is there. -/
theorem truncated {more : List Char} (h : LexemeBy c cs kind text (rest ++ more)) : LexemeBy c (text ++ rest) kind text rest :=
  lexemeBy_iff_stands.mpr ⟨rfl, h.stands.truncated⟩

/-- A lexeme that is cut off a text is a lexeme by itself. -/
theorem alone (h : LexemeBy c cs kind text rest) : LexemeBy c text kind text [] :=
  lexemeBy_iff_stands.mpr ⟨(List.append_nil text).symm, h.stands.alone⟩

/-- What is read behind the first character of a lexeme stays the same when a blank and more text come behind the text. -/
theorem followed (h : LexemeBy c cs kind text rest) {b : Char} (hb : b ∈ blanks) (more : List Char) :
    LexemeBy c (cs ++ b :: more) kind text (rest ++ b :: more) := by
  obtain ⟨rfl, hstands⟩ := lexemeBy_iff_stands.mp h
  exact lexemeBy_iff_stands.mpr ⟨List.append_assoc _ _ _, hstands.followed hb more⟩

end Piece.LexemeBy

/-! ## Where the tokens of a source stand -/

/-- Two beginnings of a text that end at the same place are the same. -/
theorem Location.behind_inj_of_append {before before' after after' : List Char} (htext : before ++ after = before' ++ after')
    (hplace : behind before = behind before') : before = before' ∧ after = after' := by
  rcases List.append_eq_append_iff.mp htext with ⟨more, rfl, rfl⟩ | ⟨more, rfl, rfl⟩
  · by_cases hmore : more = []
    · simp [hmore]
    · exact absurd (hplace ▸ behind_before_append before hmore) (not_before_self _)
  · by_cases hmore : more = []
    · simp [hmore]
    · exact absurd (hplace ▸ behind_before_append before' hmore) (not_before_self _)

/-- The token stands in the text, which stands behind `before`, at the place it says. -/
def Token.StandsIn (t : Token) (before text : List Char) : Prop :=
  ∃ ahead rest, text = ahead ++ t.value.toList ++ rest ∧ t.location = .behind (before ++ ahead) ∧ Stands t.kind t.value.toList rest

theorem Token.StandsIn.prepend {t : Token} {before more text : List Char} (h : t.StandsIn (before ++ more) text) :
    t.StandsIn before (more ++ text) := by
  obtain ⟨ahead, rest, rfl, hplace, hstands⟩ := h
  exact ⟨more ++ ahead, rest, by simp, by rw [hplace, List.append_assoc], hstands⟩

/-- The tokens read off a text stand in it. -/
theorem Lexer.standsIn_of_read {before cs : List Char} {ts : List Token}
    (h : (read (Location.start.after before) (Piece.pieces cs)).1 = .ok ts) : ∀ t ∈ ts, t.StandsIn before cs := by
  refine read_induction (P := fun l cs ts => ∀ before, l = .behind before → ∀ t ∈ ts, t.StandsIn before cs) ?_ ?_ ?_ ?_ h before
    (Location.after_start before)
  · intro _ _ _
    exact nofun
  · intro _ _ _ _ _ _ _
    exact nofun
  · intro l s rest ts _ ih before hl t ht
    exact (ih _ (hl ▸ Location.after_behind before s) t ht).prepend
  · intro c cs text rest t ts hcut hvalue ih before hl u hu
    obtain ⟨rfl, hstands⟩ := lexemeBy_iff_stands.mp hcut
    have htext : t.value.toList = c :: text := by rw [hvalue, String.toList_ofList]
    rcases List.mem_cons.mp hu with rfl | hu
    · exact ⟨[], rest, by rw [htext]; rfl, by rw [hl, List.append_nil], htext ▸ hstands⟩
    · exact (ih _ (hl ▸ Location.after_behind before (c :: text)) u hu).prepend

/-- When a source is read without a fault, each of its tokens is found in the source where it says it stands, at one offset and at no
other, and it is a word of its kind before the rest of the source there. -/
theorem tokensOf_stand {source : String} {ts : List Token} (h : tokensOf source = .ok ts) :
    ∀ t ∈ ts, (∃ before rest, source.toList = before ++ t.value.toList ++ rest ∧ t.location = .behind before) ∧
      ∀ before rest, source.toList = before ++ t.value.toList ++ rest → t.location = .behind before →
        Stands t.kind t.value.toList rest := by
  intro t ht
  have hread : (Lexer.read (Location.start.after []) (Piece.pieces source.toList)).1 = .ok ts := h
  obtain ⟨ahead, behind, htext, hplace, hstands⟩ := Lexer.standsIn_of_read hread t ht
  rw [List.nil_append] at hplace
  refine ⟨⟨ahead, behind, htext, hplace⟩, fun before rest htext' hplace' => ?_⟩
  have hsame : ahead ++ (t.value.toList ++ behind) = before ++ (t.value.toList ++ rest) := by
    rw [← List.append_assoc, ← List.append_assoc, ← htext, htext']
  obtain ⟨-, hrest⟩ := Location.behind_inj_of_append hsame (hplace.symm.trans hplace')
  rwa [← List.append_cancel_left hrest]

/-- The statement at a source with every kind of word, each before something that could be taken for more of it. -/
theorem tokensOf_stand_munched :
    let source := "for(1.5.2+++/'\\''/**/5.b"
    let ts : List Token := [⟨.keyword, "for", ⟨1, 1⟩⟩, ⟨.punctuation, "(", ⟨1, 4⟩⟩, ⟨.literal, "1.5", ⟨1, 5⟩⟩, ⟨.operator, ".", ⟨1, 8⟩⟩,
      ⟨.literal, "2", ⟨1, 9⟩⟩, ⟨.operator, "++", ⟨1, 10⟩⟩, ⟨.operator, "+", ⟨1, 12⟩⟩, ⟨.operator, "/", ⟨1, 13⟩⟩,
      ⟨.literal, "'\\''", ⟨1, 14⟩⟩, ⟨.literal, "5", ⟨1, 22⟩⟩, ⟨.operator, ".", ⟨1, 23⟩⟩, ⟨.identifier, "b", ⟨1, 24⟩⟩]
    tokensOf source = .ok ts ∧ ∀ t ∈ ts,
      (∃ before rest, source.toList = before ++ t.value.toList ++ rest ∧ t.location = .behind before) ∧
        ∀ before rest, source.toList = before ++ t.value.toList ++ rest → t.location = .behind before →
          Stands t.kind t.value.toList rest := by
  intro source ts
  have h : tokensOf source = .ok ts := by decide +kernel
  exact ⟨h, tokensOf_stand h⟩

end LoopForest
