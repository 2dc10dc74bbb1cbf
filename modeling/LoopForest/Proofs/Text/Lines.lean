import LoopForest.Proofs.Text.Clear
import LoopForest.Proofs.Text.Lexicon

/-!
# Texts on lines of their own

A line break ends whatever a text without a fault leaves open at its end: a line of a comment or of a directive, and a word that could
go on. So a text that stands behind such a text and a line break is cut as if nothing stood before it (`Piece.exists_pieces_break`).
It is also read as if nothing stood before it, with every place as many lines further down as there are lines above it
(`tokensOf_lines`).
-/

namespace LoopForest

open Piece (flatten)

/-! ## Further down -/

namespace Location

/-- The place in the same column, some lines further down. -/
def below (l : Location) (lines : Nat) : Location := ⟨l.line + lines, l.column⟩

/-- Walking over a text leads as far from a place further down. -/
theorem after_below (l : Location) (lines : Nat) (text : List Char) : (l.below lines).after text = (l.after text).below lines := by
  induction text generalizing l with
  | nil => rfl
  | cons c text ih =>
    have hadvance : (l.below lines).advance c = (l.advance c).below lines := by
      unfold advance below
      split
      · rw [Nat.add_right_comm]
      · rfl
    rw [after_cons, after_cons, hadvance, ih]

/-- Behind a text and a line break stands the beginning of a line. -/
theorem after_break (text : List Char) : start.after (text ++ ['\n']) = start.below (1 + text.count '\n') := by
  rw [after_start]
  simp [behind, below, start, Nat.add_comm]

end Location

/-- The token, some lines further down. -/
def Token.below (t : Token) (lines : Nat) : Token := { t with location := t.location.below lines }

/-- The fault, some lines further down. -/
def LexError.below (e : LexError) (lines : Nat) : LexError := { e with location := e.location.below lines }

namespace Lexer

theorem scanned_below (lines : Nat) (l : Location) (pieces : List Piece) :
    scanned (l.below lines) pieces = (scanned l pieces).map (·.below lines) := by
  induction pieces generalizing l with
  | nil => rfl
  | cons p pieces ih =>
    obtain ⟨_ | kind | cause, text⟩ := p
    · rw [scanned, scanned, Location.after_below, ih]
    · rw [scanned, scanned, Location.after_below, ih]
      rfl
    · rfl

/-- What is read further down is the same, further down. -/
theorem read_below (lines : Nat) (l : Location) (pieces : List Piece) :
    (read (l.below lines) pieces).1 = ((read l pieces).1.map (List.map (·.below lines))).mapError (·.below lines) := by
  rcases Piece.clear_or_fault pieces with hclear | ⟨clear, cause, text, rest, rfl, hclear⟩
  · rw [read_of_clear hclear, read_of_clear hclear, scanned_below]
    rfl
  · rw [read_of_fault hclear, read_of_fault hclear, Location.after_below]
    rfl

end Lexer

/-! ## Line breaks -/

namespace Piece

/-- A line break and more text behind a text whose first piece is clear leave that piece what it is. Only a line that the end of the
text has cut short takes the break along. -/
theorem pieces_cons_break {c : Char} {cs : List Char} (h : ∀ cause, (cut c cs).1 ≠ .fault cause) (more : List Char) :
    pieces (c :: cs ++ '\n' :: more) = ⟨(cut c cs).1, c :: (cut c cs).2.1⟩ :: pieces ((cut c cs).2.2 ++ '\n' :: more) ∨
      (cut c cs).1 = .gap ∧ (cut c cs).2.2 = [] ∧
        pieces (c :: cs ++ '\n' :: more) = ⟨.gap, c :: (cut c cs).2.1 ++ ['\n']⟩ :: pieces more := by
  have htext : c :: cs = c :: (cut c cs).2.1 ++ (cut c cs).2.2 := by rw [List.cons_append, cut_append]
  cases hr : (cut c cs).1 with
  | gap =>
    rcases cut_gap hr with hs | ⟨hend, opening, hopening, line, hline, heq⟩
    · have hpieces := pieces_separator hs ((cut c cs).2.2 ++ '\n' :: more)
      rw [← List.append_assoc, ← htext] at hpieces
      exact Or.inl hpieces
    · have hpieces := pieces_separator (.line hopening hline) more
      rw [hend, List.append_nil] at htext
      rw [← heq, ← htext, List.append_assoc, List.singleton_append] at hpieces
      exact Or.inr ⟨rfl, hend, htext ▸ hpieces⟩
  | lexeme kind =>
    have hcut : cut c cs = (.lexeme kind, (cut c cs).2.1, (cut c cs).2.2) := by rw [← hr]
    have hfollowed := cut_eq_lexeme_iff.mpr ((cut_eq_lexeme_iff.mp hcut).followed (b := '\n') (by decide) more)
    rw [List.cons_append, pieces_cons, hfollowed]
    exact Or.inl rfl
  | fault cause => exact absurd hr (h cause)

/-- A line break behind a text without a fault ends its last piece, or it is a piece of its own. It changes no lexeme, and what stands
behind it is cut as a text of its own. -/
theorem exists_pieces_break {text : List Char} (h : ∀ p ∈ pieces text, p.IsClear) (more : List Char) :
    ∃ front, pieces (text ++ '\n' :: more) = front ++ pieces more ∧ (∀ p ∈ front, p.IsClear) ∧ flatten front = text ++ ['\n'] ∧
      ∀ l, Lexer.scanned l front = Lexer.scanned l (pieces text) := by
  have hgap (s : List Char) : ∀ p ∈ [Piece.mk .gap s], p.IsClear := by simp [IsClear]
  induction text using pieces_induction with
  | nil =>
    refine ⟨[⟨.gap, ['\n']⟩], pieces_separator (s := ['\n']) (.blank (by decide)) more, hgap _, rfl, fun l => ?_⟩
    rw [pieces_nil]
    rfl
  | cons c cs ih =>
    have htext : c :: cs = c :: (cut c cs).2.1 ++ (cut c cs).2.2 := by rw [List.cons_append, cut_append]
    rw [pieces_cons] at h
    obtain ⟨hfirst, hrest⟩ := List.forall_mem_cons.mp h
    rcases pieces_cons_break hfirst more with hpieces | ⟨hr, hend, hpieces⟩
    · obtain ⟨front, hfront, hclear, hflat, hscanned⟩ := ih hrest
      refine ⟨_ :: front, by rw [hpieces, hfront]; rfl, List.forall_mem_cons.mpr ⟨hfirst, hclear⟩, ?_, fun l => ?_⟩
      · rw [flatten_cons, hflat, ← List.append_assoc, ← htext]
      · rw [pieces_cons]
        cases hr : (cut c cs).1 with
        | gap => exact hscanned _
        | lexeme kind => exact congrArg (_ :: ·) (hscanned _)
        | fault cause => rfl
    · rw [hend, List.append_nil] at htext
      refine ⟨[_], hpieces, hgap _, by rw [flatten_cons, flatten_nil, List.append_nil, ← htext], fun l => ?_⟩
      rw [pieces_cons, hr, hend, pieces_nil]
      rfl

end Piece

/-- A text without a fault and a line break before another text put their tokens before those of the other. The other text's tokens, or
its fault, stay what they are but for the line: they stand below the lines of the first. -/
theorem tokensOf_lines {a : String} {front : List Token} (h : tokensOf a = .ok front) (b : String) :
    (∀ rest, tokensOf b = .ok rest →
      tokensOf (a ++ "\n" ++ b) = .ok (front ++ rest.map (·.below (1 + a.toList.count '\n')))) ∧
    ∀ e, tokensOf b = .error e → tokensOf (a ++ "\n" ++ b) = .error (e.below (1 + a.toList.count '\n')) := by
  obtain ⟨hclear, rfl⟩ := Lexer.read_eq_ok_iff.mp h
  obtain ⟨front, hpieces, hfront, hflat, hscanned⟩ := Piece.exists_pieces_break hclear b.toList
  have htext : (a ++ "\n" ++ b).toList = a.toList ++ '\n' :: b.toList := by
    have hbreak : "\n".toList = ['\n'] := rfl
    rw [String.toList_append, String.toList_append, hbreak, List.append_assoc]
    rfl
  have hread : tokensOf (a ++ "\n" ++ b) =
      (((tokensOf b).map (List.map (·.below (1 + a.toList.count '\n')))).mapError (·.below (1 + a.toList.count '\n'))).map
        (Lexer.scanned .start (Piece.pieces a.toList) ++ ·) := by
    have hlines := Lexer.read_below (1 + a.toList.count '\n') .start (Piece.pieces b.toList)
    rw [tokensOf, Lexer.ofSource, Lexer.tokenize, htext, hpieces, Lexer.read_append hfront, hflat, Location.after_break, hlines,
      hscanned]
    rfl
  constructor
  · intro rest hb
    rw [hread, hb]
    rfl
  · intro e hb
    rw [hread, hb]
    rfl

/-- The statement at a text that ends with an operator that could begin a comment, in front of a text with a fault, and at one that
ends with a comment that nothing closes, in front of a text without a fault. -/
theorem tokensOf_lines_slashAndComment :
    tokensOf "x\n=/" = .ok [⟨.identifier, "x", ⟨1, 1⟩⟩, ⟨.operator, "=", ⟨2, 1⟩⟩, ⟨.operator, "/", ⟨2, 2⟩⟩] ∧
    tokensOf ("x\n=/" ++ "\n" ++ "/ @") = .error (LexError.below ⟨"Unexpected character: '@'", ⟨1, 3⟩⟩ 2) ∧
    tokensOf "x // y" = .ok [⟨.identifier, "x", ⟨1, 1⟩⟩] ∧
    tokensOf ("x // y" ++ "\n" ++ " z") = .ok ([⟨.identifier, "x", ⟨1, 1⟩⟩] ++ [⟨.identifier, "z", ⟨1, 2⟩⟩].map (Token.below · 1)) := by
  have hslash : tokensOf "x\n=/" = .ok [⟨.identifier, "x", ⟨1, 1⟩⟩, ⟨.operator, "=", ⟨2, 1⟩⟩, ⟨.operator, "/", ⟨2, 2⟩⟩] := by
    decide +kernel
  have hcomment : tokensOf "x // y" = .ok [⟨.identifier, "x", ⟨1, 1⟩⟩] := by decide +kernel
  have hfault : tokensOf "/ @" = .error ⟨"Unexpected character: '@'", ⟨1, 3⟩⟩ := by decide +kernel
  have hname : tokensOf " z" = .ok [⟨.identifier, "z", ⟨1, 2⟩⟩] := by decide +kernel
  exact ⟨hslash, (tokensOf_lines hslash "/ @").2 _ hfault, hcomment, (tokensOf_lines hcomment " z").1 _ hname⟩

end LoopForest
