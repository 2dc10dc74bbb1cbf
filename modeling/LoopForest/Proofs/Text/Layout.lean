import LoopForest.Text.Lexer
import LoopForest.Proofs.Text.Lexeme
import Mathlib.Data.List.Induction

/-!
# How tokens stand in a text

`Spells before tokens text` says that `text`, which stands behind `before`, is these tokens in order with gaps around them, and that
each token gives the place where its own text begins. Places are counted here from the text alone, the line breaks before them and
the characters since the last one (`Location.behind`), and not by walking.

When a text has no fault, its tokens spell it (`tokensOf_lossless`): no character is lost and none is read twice, and the places of
the tokens increase.
-/

namespace LoopForest

/-! ## Places -/

namespace Location

/-- The place behind a text that begins where all texts begin: one line more than it has line breaks, and one column more than it has
characters behind the last of them. -/
def behind (text : List Char) : Location :=
  ⟨1 + text.count '\n', 1 + (text.reverse.takeWhile (· != '\n')).length⟩

/-- The first place comes before the second one: on an earlier line, or on the same line and further left. -/
def Before (l m : Location) : Prop := l.line < m.line ∨ (l.line = m.line ∧ l.column < m.column)

theorem behind_concat (text : List Char) (c : Char) : behind (text ++ [c]) = (behind text).advance c := by
  unfold behind advance
  by_cases hc : c = '\n'
  · simp [hc, Nat.add_assoc]
  · simp [hc, Nat.add_assoc]

/-- Walking over a text leads behind it. -/
theorem after_start (text : List Char) : start.after text = behind text := by
  induction text using List.reverseRecOn with
  | nil => rfl
  | append_singleton text c ih => rw [after_append, ih, behind_concat]; rfl

/-- Walking on from behind a text leads behind what has been added to it. -/
theorem after_behind (text more : List Char) : (behind text).after more = behind (text ++ more) := by
  rw [← after_start, ← after_start, after_append]

theorem Before.trans {l m n : Location} (h : l.Before m) (h' : m.Before n) : l.Before n := by
  unfold Before at *
  omega

theorem not_before_self (l : Location) : ¬l.Before l := by
  unfold Before
  omega

theorem before_advance (l : Location) (c : Char) : l.Before (l.advance c) := by
  unfold advance
  split
  · exact Or.inl (Nat.lt_succ_self _)
  · exact Or.inr ⟨rfl, Nat.lt_succ_self _⟩

/-- Walking over a text that is not empty leads further. -/
theorem before_after (l : Location) {text : List Char} (h : text ≠ []) : l.Before (l.after text) := by
  induction text generalizing l with
  | nil => exact absurd rfl h
  | cons c text ih =>
    rw [after_cons]
    by_cases ht : text = []
    · rw [ht]
      exact before_advance l c
    · exact (before_advance l c).trans (ih (l.advance c) ht)

theorem behind_before_append (text : List Char) {more : List Char} (h : more ≠ []) :
    (behind text).Before (behind (text ++ more)) := by
  rw [← after_behind]
  exact before_after _ h

end Location

open Location

/-! ## Layouts -/

/-- The text is the tokens in order, with a gap before each of them and one behind the last. The text stands behind `before`, and each
token is placed behind all that stands before it. -/
inductive Spells : List Char → List Token → List Char → Prop where
  | last {before w : List Char} (hw : LastGap w) : Spells before [] w
  | token {before w : List Char} {t : Token} {ts : List Token} {rest : List Char} (hw : Gap w) (hvalue : t.value ≠ "")
    (hplace : t.location = behind (before ++ w)) (hrest : Spells (before ++ w ++ t.value.toList) ts rest) :
    Spells before (t :: ts) (w ++ t.value.toList ++ rest)

namespace Spells

/-- A separator before a layout is one more of its first gap. -/
theorem separated {before s text : List Char} {ts : List Token} (hs : Separator s) (h : Spells (before ++ s) ts text) :
    Spells before ts (s ++ text) := by
  cases h with
  | last hw => exact .last (.cons hs hw)
  | @token _ w t ts rest hw hvalue hplace hrest =>
    have hgap : Gap (s ++ w) := .cons hs hw
    rw [List.append_assoc before s w] at hplace hrest
    simpa only [List.append_assoc] using Spells.token hgap hvalue hplace hrest

/-- A token that begins where the text begins, when what stands behind it is laid out. -/
theorem lexeme {before lexeme text : List Char} {kind : TokenKind} {ts : List Token} (hne : lexeme ≠ [])
    (h : Spells (before ++ lexeme) ts text) :
    Spells before (⟨kind, String.ofList lexeme, start.after before⟩ :: ts) (lexeme ++ text) := by
  have hvalue : (String.ofList lexeme).toList = lexeme := String.toList_ofList
  have hplace : start.after before = behind (before ++ []) := by rw [List.append_nil, after_start]
  have hrest : Spells (before ++ [] ++ (String.ofList lexeme).toList) ts text := by
    rwa [hvalue, List.append_nil]
  have htoken := Spells.token (t := ⟨kind, String.ofList lexeme, start.after before⟩) .nil (by simpa using hne) hplace hrest
  rwa [hvalue] at htoken

/-- Every token of a layout is placed behind what stands before the layout. -/
theorem exists_place {before text : List Char} {ts : List Token} (h : Spells before ts text) {t : Token} (ht : t ∈ ts) :
    ∃ more, t.location = behind (before ++ more) := by
  induction h with
  | last _ => cases ht
  | @token before w first ts rest _ _ hplace _ ih =>
    rcases List.mem_cons.mp ht with rfl | ht
    · exact ⟨w, hplace⟩
    · obtain ⟨more, hmore⟩ := ih ht
      exact ⟨w ++ (first.value.toList ++ more), by simpa only [List.append_assoc] using hmore⟩

/-- The tokens of a layout stand one behind the other. -/
theorem pairwise {before text : List Char} {ts : List Token} (h : Spells before ts text) :
    ts.Pairwise fun t u => t.location.Before u.location := by
  induction h with
  | last _ => exact .nil
  | @token before w t ts rest _ hvalue hplace hrest ih =>
    refine List.pairwise_cons.mpr ⟨fun u hu => ?_, ih⟩
    obtain ⟨more, hmore⟩ := hrest.exists_place hu
    have hne : t.value.toList ++ more ≠ [] := by simp [hvalue]
    rw [hplace, hmore, List.append_assoc (before ++ w)]
    exact behind_before_append _ hne

end Spells

/-! ## Tokens spell their text -/

namespace Lexer

/-- What reading answers when it comes to the end of some pieces that begin with a lexeme. -/
theorem read_lexeme_eq_ok {l : Location} {kind : TokenKind} {text : List Char} {rest : List Piece} {ts : List Token}
    (h : (read l (⟨.lexeme kind, text⟩ :: rest)).1 = .ok ts) :
    ∃ us, (read (l.after text) rest).1 = .ok us ∧ ts = ⟨kind, String.ofList text, l⟩ :: us := by
  rw [read] at h
  rcases hr : read (l.after text) rest with ⟨e | us, lexer⟩
  · rw [hr] at h
    cases h
  · rw [hr] at h
    exact ⟨us, rfl, (Except.ok.inj h).symm⟩

/-- What holds of the empty text at every place, and of a text at a place when it holds of what stands behind its first gap or lexeme at
the place behind that, holds of every text that is read without a fault from a place, with its tokens. -/
theorem read_induction {l : Location} {P : Location → List Char → List Token → Prop} (nil : ∀ l, P l [] [])
    (lastLine : ∀ l {opening line : List Char}, opening ∈ lineOpenings → '\n' ∉ line → P l (opening ++ line) [])
    (separator : ∀ l {s rest : List Char} {ts : List Token}, Separator s → P (l.after s) rest ts → P l (s ++ rest) ts)
    (lexeme : ∀ {c : Char} {cs text rest : List Char} {t : Token} {ts : List Token}, Piece.LexemeBy c cs t.kind text rest →
      t.value = String.ofList (c :: text) → P (t.location.after (c :: text)) rest ts → P t.location (c :: cs) (t :: ts))
    {cs : List Char} {ts : List Token} (h : (read l (Piece.pieces cs)).1 = .ok ts) : P l cs ts := by
  induction cs using Piece.pieces_induction generalizing l ts with
  | nil =>
    rw [Piece.pieces_nil] at h
    obtain rfl := Except.ok.inj h
    exact nil l
  | cons c cs ih =>
    rw [Piece.pieces_cons] at h
    cases hr : (Piece.cut c cs).1 with
    | gap =>
      rw [hr, read] at h
      have htext : c :: cs = (c :: (Piece.cut c cs).2.1) ++ (Piece.cut c cs).2.2 := by rw [List.cons_append, Piece.cut_append]
      rw [htext]
      rcases Piece.cut_gap hr with hs | ⟨hrest, opening, hopening, line, hline, heq⟩
      · exact separator l hs (ih h)
      · rw [hrest, Piece.pieces_nil] at h
        obtain rfl := Except.ok.inj h
        rw [hrest, List.append_nil, heq]
        exact lastLine l hopening hline
    | lexeme kind =>
      rw [hr] at h
      obtain ⟨us, hus, rfl⟩ := read_lexeme_eq_ok h
      have hcut : Piece.cut c cs = (.lexeme kind, (Piece.cut c cs).2.1, (Piece.cut c cs).2.2) := by rw [← hr]
      exact lexeme (t := ⟨kind, _, l⟩) (Piece.cut_eq_lexeme_iff.mp hcut) rfl (ih hus)
    | fault cause =>
      rw [hr, read] at h
      cases h

/-- The tokens read off the pieces of a text spell it. -/
theorem spells_of_read {before cs : List Char} {ts : List Token}
    (h : (read (start.after before) (Piece.pieces cs)).1 = .ok ts) : Spells before ts cs := by
  refine read_induction (P := fun l cs ts => ∀ before, l = start.after before → Spells before ts cs) ?_ ?_ ?_ ?_ h before rfl
  · intro _ _ _
    exact .last (.closed .nil)
  · intro _ opening line hopening hline _ _
    exact .last (.line .nil hopening hline)
  · intro l s rest ts hs ih before hl
    exact (ih (before ++ s) (by rw [hl, after_append])).separated hs
  · rintro c cs text rest ⟨kind, value, location⟩ ts hcut rfl ih before rfl
    rw [← hcut.append_eq]
    exact .lexeme (List.cons_ne_nil _ _) (ih (before ++ c :: text) (after_append _ _ _).symm)

end Lexer

/-- A text without a fault is its tokens in order with gaps between them, and each token stands where it says: one line more than there
are line breaks before it, and one column more than there are characters since the last of them. So no two tokens stand at the same
place, and the later one stands further on. -/
theorem tokensOf_lossless {source : String} {ts : List Token} (h : tokensOf source = .ok ts) :
    Spells [] ts source.toList ∧ ts.Pairwise fun t u => t.location.Before u.location := by
  have hread : (Lexer.read (start.after []) (Piece.pieces source.toList)).1 = .ok ts := h
  have hspells : Spells [] ts source.toList := Lexer.spells_of_read hread
  exact ⟨hspells, hspells.pairwise⟩

/-- The statement at a text with a line break inside a literal, every kind of gap, and a comment that ends with the text. -/
theorem tokensOf_lossless_escapedBreak :
    let source := "f/**/('\\\n') # x\n;// end"
    let ts : List Token := [⟨.identifier, "f", ⟨1, 1⟩⟩, ⟨.punctuation, "(", ⟨1, 6⟩⟩, ⟨.literal, "'\\\n'", ⟨1, 7⟩⟩,
      ⟨.punctuation, ")", ⟨2, 2⟩⟩, ⟨.punctuation, ";", ⟨3, 1⟩⟩]
    tokensOf source = .ok ts ∧ Spells [] ts source.toList ∧ ts.Pairwise fun t u => t.location.Before u.location := by
  intro source ts
  have h : tokensOf source = .ok ts := by decide +kernel
  exact ⟨h, tokensOf_lossless h⟩

end LoopForest
