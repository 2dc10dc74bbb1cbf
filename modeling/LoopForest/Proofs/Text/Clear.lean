import LoopForest.Text.Lexer

/-!
# Reading up to a fault

A piece is clear when it is a gap or a lexeme. Clear pieces are read whatever comes behind them, and their tokens come before those
of the rest (`Lexer.read_append`); `Lexer.scanned` says which tokens these are. So a call ends in one of two ways. All pieces are
clear, and the call answers their tokens (`read_of_clear`), or one piece is the first that is not, and the call answers its fault and
leaves the lexer behind it (`read_of_fault`).
-/

namespace LoopForest

namespace Piece

/-- The piece is a gap or a lexeme. -/
def IsClear (p : Piece) : Prop := ∀ cause, p.reading ≠ .fault cause

/-- The text that some pieces make up. -/
def flatten (pieces : List Piece) : List Char := pieces.flatMap (·.text)

@[simp] theorem flatten_nil : flatten [] = [] := rfl

@[simp] theorem flatten_cons (p : Piece) (rest : List Piece) : flatten (p :: rest) = p.text ++ flatten rest := rfl

@[simp] theorem flatten_append (front rest : List Piece) : flatten (front ++ rest) = flatten front ++ flatten rest :=
  List.flatMap_append

/-- A text is what its pieces make up. -/
theorem eq_flatten {cs : List Char} {ps : List Piece} (h : pieces cs = ps) : cs = flatten ps :=
  h ▸ (flatten_pieces cs).symm

/-- Behind some pieces of a text stand the pieces of what the others make up. -/
theorem pieces_flatten_behind {cs : List Char} {front back : List Piece} (h : pieces cs = front ++ back) :
    pieces (flatten back) = back := by
  induction front generalizing cs with
  | nil =>
    obtain rfl : pieces cs = back := h
    rw [← eq_flatten rfl]
  | cons p front ih =>
    cases cs with
    | nil =>
      rw [pieces_nil] at h
      cases h
    | cons c cs =>
      rw [pieces_cons] at h
      exact ih (List.cons.inj h).2

/-- All pieces are clear, or there is a first one with a fault. -/
theorem clear_or_fault (pieces : List Piece) :
    (∀ p ∈ pieces, p.IsClear) ∨
      ∃ clear cause text rest, pieces = clear ++ ⟨.fault cause, text⟩ :: rest ∧ ∀ p ∈ clear, p.IsClear := by
  induction pieces with
  | nil => exact Or.inl nofun
  | cons p pieces ih =>
    obtain ⟨reading, text⟩ := p
    by_cases hfault : ∃ cause, reading = .fault cause
    · obtain ⟨cause, rfl⟩ := hfault
      exact Or.inr ⟨[], cause, text, pieces, rfl, nofun⟩
    · have hclear : IsClear ⟨reading, text⟩ := fun cause hcause => hfault ⟨cause, hcause⟩
      rcases ih with hall | ⟨clear, cause, text', rest, rfl, hfront⟩
      · exact Or.inl (List.forall_mem_cons.mpr ⟨hclear, hall⟩)
      · exact Or.inr ⟨_ :: clear, cause, text', rest, rfl, List.forall_mem_cons.mpr ⟨hclear, hfront⟩⟩

end Piece

open Piece (flatten)

namespace Lexer

/-- The tokens on the way to the first fault, or to the end when there is none. -/
def scanned (l : Location) : List Piece → List Token
  | [] => []
  | ⟨.gap, text⟩ :: rest => scanned (l.after text) rest
  | ⟨.fault _, _⟩ :: _ => []
  | ⟨.lexeme kind, text⟩ :: rest => ⟨kind, String.ofList text, l⟩ :: scanned (l.after text) rest

/-- A lexeme is one more token in front of those behind it. -/
theorem read_lexeme (l : Location) (kind : TokenKind) (text : List Char) (rest : List Piece) :
    read l (⟨.lexeme kind, text⟩ :: rest) =
      ((read (l.after text) rest).1.map (⟨kind, String.ofList text, l⟩ :: ·), (read (l.after text) rest).2) := by
  rw [read]
  rcases read (l.after text) rest with ⟨_ | _, _⟩ <;> rfl

section

variable {clear : List Piece} (h : ∀ p ∈ clear, p.IsClear)

include h

/-- Clear pieces are read, and then what stands behind them. -/
theorem read_append (l : Location) (rest : List Piece) :
    read l (clear ++ rest) =
      ((read (l.after (flatten clear)) rest).1.map (scanned l clear ++ ·), (read (l.after (flatten clear)) rest).2) := by
  induction clear generalizing l with
  | nil =>
    rcases hread : read l rest with ⟨_ | _, _⟩ <;> simp [hread, scanned, Except.map]
  | cons p clear ih =>
    obtain ⟨hp, hclear⟩ := List.forall_mem_cons.mp h
    obtain ⟨_ | kind | cause, text⟩ := p
    · rw [List.cons_append, read, ih hclear, Piece.flatten_cons, Location.after_append, scanned]
    · rw [List.cons_append, read_lexeme, ih hclear, Piece.flatten_cons, Location.after_append, scanned]
      rcases read ((l.after text).after (flatten clear)) rest with ⟨_ | _, _⟩ <;> rfl
    · exact absurd rfl (hp cause)

theorem scanned_append (l : Location) (rest : List Piece) :
    scanned l (clear ++ rest) = scanned l clear ++ scanned (l.after (flatten clear)) rest := by
  induction clear generalizing l with
  | nil => rfl
  | cons p clear ih =>
    obtain ⟨hp, hclear⟩ := List.forall_mem_cons.mp h
    obtain ⟨_ | kind | cause, text⟩ := p
    · rw [List.cons_append, scanned, ih hclear, Piece.flatten_cons, Location.after_append, scanned]
    · rw [List.cons_append, scanned, ih hclear, Piece.flatten_cons, Location.after_append, scanned, List.cons_append]
    · exact absurd rfl (hp cause)

/-- Clear pieces are read to their end. -/
theorem read_of_clear (l : Location) : read l clear = (.ok (scanned l clear), ⟨l.after (flatten clear), []⟩) := by
  have hread := read_append h l []
  rw [List.append_nil] at hread
  rw [hread, read]
  simp [Except.map]

/-- The first fault ends a call, and the call uses up the piece that has it. -/
theorem read_of_fault (l : Location) (cause : Fault) (text : List Char) (rest : List Piece) :
    read l (clear ++ ⟨.fault cause, text⟩ :: rest) =
      (.error ⟨cause.reason, l.after (flatten clear)⟩, ⟨l.after (flatten clear ++ text), rest⟩) := by
  rw [read_append h, read, Location.after_append]
  rfl

end

variable {l : Location} {pieces : List Piece}

/-- A call answers tokens when no piece has a fault. -/
theorem read_eq_ok_iff {ts : List Token} : (read l pieces).1 = .ok ts ↔ (∀ p ∈ pieces, p.IsClear) ∧ scanned l pieces = ts := by
  rcases Piece.clear_or_fault pieces with hclear | ⟨clear, cause, text, rest, rfl, hclear⟩
  · rw [read_of_clear hclear, Except.ok.injEq, and_iff_right hclear]
  · have hfault : ¬∀ p ∈ clear ++ ⟨.fault cause, text⟩ :: rest, p.IsClear := fun hall =>
      hall _ (List.mem_append_right _ List.mem_cons_self) cause rfl
    rw [read_of_fault hclear, iff_false_right (not_and_of_not_left _ hfault)]
    exact nofun

/-- A call answers the first fault there is. -/
theorem read_eq_error_iff {e : LexError} :
    (read l pieces).1 = .error e ↔ ∃ clear cause text rest, pieces = clear ++ ⟨.fault cause, text⟩ :: rest ∧
      (∀ p ∈ clear, p.IsClear) ∧ e = ⟨cause.reason, l.after (flatten clear)⟩ := by
  constructor
  · intro h
    rcases Piece.clear_or_fault pieces with hclear | ⟨clear, cause, text, rest, rfl, hclear⟩
    · rw [read_of_clear hclear] at h
      cases h
    · rw [read_of_fault hclear] at h
      exact ⟨clear, cause, text, rest, rfl, hclear, (Except.error.inj h).symm⟩
  · rintro ⟨clear, cause, text, rest, rfl, hclear, rfl⟩
    rw [read_of_fault hclear]

end Lexer

end LoopForest
