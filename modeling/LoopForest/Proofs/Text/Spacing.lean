import LoopForest.Proofs.Text.Lines

/-!
# Tokens written out again

The tokens of a text can be written out once more, with blanks between them or with blanks, comments and directive lines (`Spaced`).
What comes of that reads as the same words in the same order (`lexesTo_of_spaced`); only the places are others. For this it is enough
that each token is a lexeme by itself (`Token.IsLexeme`), and all that a lexer reads are (`isLexeme_of_read`).

`LexesTo text words` leaves the places out. Two texts with a line break between them read as the words of the first and then those of
the second (`LexesTo.lines`), because a line break ends whatever the first text leaves open, a comment line at its end included.
-/

namespace LoopForest

/-- What a token is without its place: its kind and its text. -/
def Token.word (t : Token) : TokenKind × String := (t.kind, t.value)

theorem Token.word_eq {t : Token} {text : List Char} (h : t.value.toList = text) : t.word = (t.kind, String.ofList text) := by
  rw [Token.word, ← h, String.ofList_toList]

/-- The token's text is a lexeme of the token's kind by itself. -/
def Token.IsLexeme (t : Token) : Prop := ∃ c text, t.value.toList = c :: text ∧ Piece.LexemeBy c text t.kind text []

/-- From whatever place, the text is read without a fault, and its tokens are these words. -/
def LexesTo (text : List Char) (words : List (TokenKind × String)) : Prop :=
  ∀ l, ∃ ts, (Lexer.read l (Piece.pieces text)).1 = .ok ts ∧ ts.map Token.word = words

/-! ## Reading without places -/

namespace Lexer

variable {l : Location}

/-- The words on the way to the first fault are the same from whatever place. -/
theorem map_word_scanned (l m : Location) (pieces : List Piece) :
    (scanned l pieces).map Token.word = (scanned m pieces).map Token.word := by
  induction pieces generalizing l m with
  | nil => rfl
  | cons p pieces ih =>
    obtain ⟨_ | kind | cause, text⟩ := p
    · exact ih _ _
    · exact congrArg (_ :: ·) (ih _ _)
    · rfl

/-- All tokens that are read off a text are lexemes. -/
theorem isLexeme_of_read {cs : List Char} {ts : List Token} (h : (read l (Piece.pieces cs)).1 = .ok ts) : ∀ t ∈ ts, t.IsLexeme := by
  refine read_induction (P := fun _ _ ts => ∀ t ∈ ts, t.IsLexeme) (fun _ => nofun) (fun _ _ _ _ _ => nofun) (fun _ _ _ _ _ ih => ih)
    (fun hcut hvalue ih => ?_) h
  refine List.forall_mem_cons.mpr ⟨⟨_, _, ?_, hcut.alone⟩, ih⟩
  rw [hvalue, String.toList_ofList]

end Lexer

namespace LexesTo

variable {text more : List Char} {words words' : List (TokenKind × String)}

theorem nil : LexesTo [] [] := by
  intro l
  rw [Piece.pieces_nil]
  exact ⟨[], rfl, rfl⟩

theorem separator {s : List Char} (hs : Separator s) (h : LexesTo text words) : LexesTo (s ++ text) words := by
  intro l
  rw [Piece.pieces_separator hs, Lexer.read]
  exact h (l.after s)

theorem gap {w : List Char} (hw : Gap w) (h : LexesTo text words) : LexesTo (w ++ text) words := by
  induction hw with
  | nil => exact h
  | cons hs _ ih =>
    rw [List.append_assoc]
    exact ih.separator hs

theorem lexeme {c : Char} {cs : List Char} {kind : TokenKind} (hcut : Piece.LexemeBy c cs kind text more) (h : LexesTo more words) :
    LexesTo (c :: cs) ((kind, String.ofList (c :: text)) :: words) := by
  intro l
  obtain ⟨ts, hts, rfl⟩ := h (l.after (c :: text))
  refine ⟨⟨kind, _, l⟩ :: ts, ?_, rfl⟩
  rw [Piece.pieces_cons, Piece.cut_eq_lexeme_iff.mpr hcut, Lexer.read_lexeme, hts]
  rfl

/-- A word that stands before a text is read before the words of the text. -/
theorem word {c : Char} {kind : TokenKind} (hword : Stands kind (c :: text) more) (h : LexesTo more words) :
    LexesTo (c :: (text ++ more)) ((kind, String.ofList (c :: text)) :: words) :=
  h.lexeme hword.lexemeBy

/-- The words of a text without a fault and of the text behind the line break that ends it. -/
theorem lines {l : Location} {ts : List Token} (h : (Lexer.read l (Piece.pieces text)).1 = .ok ts) (hmore : LexesTo more words) :
    LexesTo (text ++ '\n' :: more) (ts.map Token.word ++ words) := by
  obtain ⟨hclear, rfl⟩ := Lexer.read_eq_ok_iff.mp h
  obtain ⟨front, hpieces, hfront, -, hscanned⟩ := Piece.exists_pieces_break hclear more
  intro m
  obtain ⟨us, hus, rfl⟩ := hmore (m.after (Piece.flatten front))
  refine ⟨Lexer.scanned m front ++ us, ?_, ?_⟩
  · rw [hpieces, Lexer.read_append hfront, hus]
    rfl
  · rw [List.map_append, hscanned, Lexer.map_word_scanned m l]

/-- What a text reads as when it is read from its beginning. -/
theorem exists_tokensOf {source : String} (h : LexesTo source.toList words) :
    ∃ ts, tokensOf source = .ok ts ∧ ts.map Token.word = words :=
  h .start

end LexesTo

/-! ## Tokens with gaps between them -/

/-- The text is the texts of these tokens in order, and between any two of them there is a blank and then any gap. -/
inductive Spaced : List Token → List Char → Prop where
  | nil : Spaced [] []
  | single {t : Token} : Spaced [t] t.value.toList
  | cons {t u : Token} {ts : List Token} {b : Char} {w text : List Char} (hb : b ∈ [' ', '\t', '\r', '\n']) (hw : Gap w)
    (h : Spaced (u :: ts) text) : Spaced (t :: u :: ts) (t.value.toList ++ b :: (w ++ text))

/-- One space between any two tokens is a blank and no further gap. -/
theorem spaced_joined (ts : List Token) : Spaced ts (Token.joined ts).toList := by
  induction ts with
  | nil => exact .nil
  | cons t ts ih =>
    cases ts with
    | nil =>
      rw [Token.joined, List.map_singleton, String.intercalate_singleton]
      exact .single
    | cons u ts =>
      have hjoined : (Token.joined (t :: u :: ts)).toList = t.value.toList ++ ' ' :: ([] ++ (Token.joined (u :: ts)).toList) := by
        rw [Token.joined, List.map_cons, List.map_cons, String.intercalate_cons_cons, String.toList_append, String.toList_append,
          List.append_assoc]
        rfl
      rw [hjoined]
      exact .cons (by decide) .nil ih

/-- Lexemes with gaps between them read as themselves. -/
theorem lexesTo_of_spaced {ts : List Token} {text : List Char} (hts : ∀ t ∈ ts, t.IsLexeme) (h : Spaced ts text) :
    LexesTo text (ts.map Token.word) := by
  induction h with
  | nil => exact .nil
  | @single t =>
    obtain ⟨c, text, htext, hcut⟩ := hts t List.mem_cons_self
    rw [htext, List.map_singleton, Token.word_eq htext]
    exact LexesTo.nil.lexeme hcut
  | @cons t u ts b w rest hb hw _ ih =>
    obtain ⟨ht, hts⟩ := List.forall_mem_cons.mp hts
    obtain ⟨c, text, htext, hcut⟩ := ht
    have hrest : LexesTo (b :: (w ++ rest)) ((u :: ts).map Token.word) := ((ih hts).gap hw).separator (.blank hb)
    rw [htext, List.map_cons, Token.word_eq htext]
    exact hrest.lexeme (hcut.followed hb _)

end LoopForest
