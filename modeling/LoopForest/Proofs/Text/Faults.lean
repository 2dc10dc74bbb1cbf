import LoopForest.Proofs.Text.Clear
import LoopForest.Proofs.Text.Lexicon

/-!
# Where a text has a fault

`Piece.Faulty cause text` says, without a scan, that no word and no gap can be read where `text` begins: its first character begins
neither, or it opens a literal or a comment that nothing behind it closes. A piece has a fault exactly where the text is of that kind
(`cut_eq_fault_iff`).

The pieces in front of a fault do not depend on it (`pieces_flatten_clear`): the text up to there is cut into the same pieces when the
rest is taken away, although each of them was cut with a look at what stands behind it. So the report of a fault shows the first place
from which the text cannot be read on (`tokensOf_fault`).
-/

namespace LoopForest

open Piece (flatten)

/-! ## What a gap begins with -/

/-- What stands between words can begin with this character. -/
def OpensGap (c : Char) : Prop := c ∈ Piece.blanks ∨ c = '#' ∨ c = '/'

theorem opensGap_of_lineOpenings {opening : List Char} (h : opening ∈ lineOpenings) : ∃ c cs, opening = c :: cs ∧ OpensGap c := by
  simp only [lineOpenings, List.mem_cons, List.not_mem_nil, or_false] at h
  rcases h with rfl | rfl
  · exact ⟨_, _, rfl, Or.inr (Or.inl rfl)⟩
  · exact ⟨_, _, rfl, Or.inr (Or.inr rfl)⟩

theorem Separator.opensGap {s : List Char} (h : Separator s) : ∃ c cs, s = c :: cs ∧ OpensGap c := by
  cases h with
  | blank hc => exact ⟨_, _, rfl, Or.inl hc⟩
  | comment => exact ⟨_, _, rfl, Or.inr (Or.inr rfl)⟩
  | line hopening =>
    obtain ⟨c, cs, rfl, hc⟩ := opensGap_of_lineOpenings hopening
    exact ⟨c, _, rfl, hc⟩

theorem Gap.opensGap {w : List Char} (h : Gap w) : w = [] ∨ ∃ c cs, w = c :: cs ∧ OpensGap c := by
  cases h with
  | nil => exact Or.inl rfl
  | cons hs hw =>
    obtain ⟨c, cs, rfl, hc⟩ := hs.opensGap
    exact Or.inr ⟨c, _, rfl, hc⟩

theorem LastGap.opensGap {w : List Char} (h : LastGap w) : w = [] ∨ ∃ c cs, w = c :: cs ∧ OpensGap c := by
  cases h with
  | closed hw => exact hw.opensGap
  | line hw hopening =>
    rcases hw.opensGap with rfl | ⟨c, cs, rfl, hc⟩
    · obtain ⟨c, cs, rfl, hc⟩ := opensGap_of_lineOpenings hopening
      exact Or.inr ⟨c, _, rfl, hc⟩
    · exact Or.inr ⟨c, _, rfl, hc⟩

namespace Piece

/-- The text begins with what cannot be read, for this cause. -/
inductive Faulty : Fault → List Char → Prop where
  /-- The first character begins no word, whatever stands behind the word, and nothing between words. -/
  | unexpected {c : Char} {cs : List Char} (hword : ∀ kind text rest, ¬Stands kind (c :: text) rest) (hgap : ∀ w, ¬LastGap (c :: w)) :
    Faulty (.unexpected c) (c :: cs)
  /-- A quote, and no other one behind it that closes the literal: what lies between them cannot stand in one. -/
  | openString {cs : List Char} (h : ∀ inner rest, Quotable '\"' inner → cs ≠ inner ++ '\"' :: rest) : Faulty .openString ('\"' :: cs)
  | openCharacter {cs : List Char} (h : ∀ inner rest, Quotable '\'' inner → cs ≠ inner ++ '\'' :: rest) :
    Faulty .openCharacter ('\'' :: cs)
  /-- The opening of a comment, and no close of it behind the two characters of the opening. -/
  | openComment {cs : List Char} (h : ¬['*', '/'] <:+: cs) : Faulty .openComment ('/' :: '*' :: cs)

/-! ## What is left open -/

/-- A comment is left open when there is no close in the text behind its opening. -/
theorem throughClose_eq_none_iff {cs : List Char} : throughClose cs = none ↔ ¬['*', '/'] <:+: cs := by
  fun_induction throughClose cs with
  | case1 => simp
  | case2 cs =>
    have hclose : ['*', '/'] <:+: '*' :: '/' :: cs := ⟨[], cs, rfl⟩
    simpa using hclose
  | case3 c cs hfirst ih =>
    have hprefix : ¬['*', '/'] <+: c :: cs := by
      rintro ⟨rest, hrest⟩
      obtain ⟨hc, hcs⟩ := List.cons.inj hrest
      exact hfirst rest hc.symm hcs.symm
    rw [Option.map_eq_none_iff, ih, List.infix_cons_iff, or_iff_right hprefix]

/-- A literal is left open when there is no quote behind what may stand in it. -/
theorem throughQuote_eq_false_iff {quote : Char} (hquote : quote = '\"' ∨ quote = '\'') {cs : List Char} :
    (throughQuote quote cs).1 = false ↔ ∀ inner rest, Quotable quote inner → cs ≠ inner ++ quote :: rest := by
  constructor
  · rintro hopen inner rest hinner rfl
    rw [throughQuote_quotable hquote hinner] at hopen
    cases hopen
  · intro hno
    rcases hthrough : throughQuote quote cs with ⟨_ | _, text, rest⟩
    · rfl
    · obtain ⟨inner, hinner, rfl⟩ := exists_quotable hthrough
      have happend := throughQuote_append quote cs
      rw [hthrough] at happend
      exact absurd (by simpa using happend.symm) (hno inner rest hinner)

theorem cutQuoted_eq_fault_iff {quote : Char} {fault cause : Fault} {cs : List Char} :
    (cutQuoted quote fault cs).1 = .fault cause ↔ (throughQuote quote cs).1 = false ∧ fault = cause := by
  unfold cutQuoted
  rcases throughQuote quote cs with ⟨_ | _, text, rest⟩ <;> simp

theorem cutComment_eq_fault_iff {cause : Fault} {cs : List Char} :
    (cutComment ('*' :: cs)).1 = .fault cause ↔ throughClose cs = none ∧ cause = .openComment := by
  unfold cutComment
  rw [List.drop_one, List.tail_cons]
  cases throughClose cs <;> simp [eq_comm]

/-! ## Faults -/

/-- A piece has a fault where the text is faulty, and nowhere else. -/
theorem cut_eq_fault_iff {c : Char} {cs : List Char} {cause : Fault} : (cut c cs).1 = .fault cause ↔ Faulty cause (c :: cs) := by
  constructor
  · intro h
    have hcut := cutBy_cut c cs
    generalize cut c cs = r at h hcut
    cases hcut with
    | blank | directive | lineComment | number | word | mark | operator => cases h
    | comment hslash hnext =>
      obtain ⟨ds, rfl⟩ := List.head?_eq_some_iff.mp hnext
      obtain ⟨hnone, rfl⟩ := cutComment_eq_fault_iff.mp h
      exact hslash ▸ .openComment (throughClose_eq_none_iff.mp hnone)
    | string hquote =>
      obtain ⟨hopen, rfl⟩ := cutQuoted_eq_fault_iff.mp h
      subst hquote
      exact .openString ((throughQuote_eq_false_iff (Or.inl rfl)).mp hopen)
    | character hquote =>
      obtain ⟨hopen, rfl⟩ := cutQuoted_eq_fault_iff.mp h
      subst hquote
      exact .openCharacter ((throughQuote_eq_false_iff (Or.inr rfl)).mp hopen)
    | unexpected hgap hquote hword hmark =>
      obtain rfl := Reading.fault.inj h
      refine .unexpected (fun kind text rest hstands => ?_) fun w hw => ?_
      · have hlexeme := cut_eq_lexeme_iff.mpr hstands.lexemeBy
        rw [(CutBy.unexpected hgap hquote hword hmark).cut_eq] at hlexeme
        cases hlexeme
      · obtain hnil | ⟨d, ds, heq, hd⟩ := hw.opensGap
        · cases hnil
        · obtain ⟨rfl, -⟩ := List.cons.inj heq
          rcases hd with hblank | hhash | hslash
          · exact hgap.1 hblank
          · exact hgap.2 hhash
          · exact hmark.2 (hslash ▸ by decide)
  · intro h
    cases h with
    | unexpected hword hgap =>
      have hcut := cutBy_cut c cs
      generalize cut c cs = r at hcut ⊢
      cases hcut with
      | blank h => exact absurd (.closed (.cons (.blank h) .nil)) (hgap [])
      | directive h =>
        have hline : LastGap ([] ++ (['#'] ++ [])) := .line .nil (by decide) nofun
        exact absurd hline (h ▸ hgap [])
      | lineComment h | comment h =>
        exact absurd (.single (by decide) nofun fun _ => nofun) (h ▸ hword .operator [] [])
      | string h | character h => exact absurd (.quoted (by simp [h]) .nil []) (hword .literal [c] [])
      | number h => exact absurd (.whole h nofun nofun nofun) (hword .literal [] [])
      | word h => exact absurd (.word ((isWordStart_iff c).mp h) nofun nofun) (hword _ [] [])
      | mark h => exact absurd (.mark h []) (hword .punctuation [] [])
      | operator h => exact absurd (.single h nofun fun _ => nofun) (hword .operator [] [])
      | unexpected => rfl
    | openString h =>
      rw [(CutBy.string rfl).cut_eq, cutQuoted_eq_fault_iff, throughQuote_eq_false_iff (Or.inl rfl)]
      exact ⟨h, rfl⟩
    | openCharacter h =>
      rw [(CutBy.character rfl).cut_eq, cutQuoted_eq_fault_iff, throughQuote_eq_false_iff (Or.inr rfl)]
      exact ⟨h, rfl⟩
    | openComment h =>
      rw [(CutBy.comment rfl rfl).cut_eq, cutComment_eq_fault_iff, throughClose_eq_none_iff]
      exact ⟨h, rfl⟩

/-! ## In front of a fault -/

/-- Clear pieces in front of another piece are the pieces of the text they make up. -/
theorem pieces_flatten_clear {cs : List Char} {clear rest : List Piece} {p : Piece} (hcs : pieces cs = clear ++ p :: rest)
    (h : ∀ q ∈ clear, q.IsClear) : pieces (flatten clear) = clear := by
  induction clear generalizing cs with
  | nil => exact pieces_nil
  | cons q clear ih =>
    obtain ⟨hq, hclear⟩ := List.forall_mem_cons.mp h
    cases cs with
    | nil =>
      rw [pieces_nil] at hcs
      cases hcs
    | cons c cs =>
      rw [pieces_cons] at hcs
      obtain ⟨rfl, hbehind⟩ := List.cons.inj hcs
      have hfront := ih hbehind hclear
      have hrest : (cut c cs).2.2 = flatten clear ++ flatten (p :: rest) := (eq_flatten hbehind).trans (flatten_append clear _)
      rw [flatten_cons]
      cases hr : (cut c cs).1 with
      | gap =>
        rcases cut_gap hr with hs | ⟨hend, -⟩
        · rw [pieces_separator hs, hfront]
        · rw [hend, pieces_nil] at hbehind
          exact absurd hbehind.symm (by simp)
      | lexeme kind =>
        have hcut : cut c cs = (.lexeme kind, (cut c cs).2.1, flatten clear ++ flatten (p :: rest)) := by rw [← hr, ← hrest]
        have hshort := cut_eq_lexeme_iff.mpr (cut_eq_lexeme_iff.mp hcut).truncated
        rw [List.cons_append, pieces_cons, hshort, hfront]
      | fault cause => exact absurd hr (hq cause)

end Piece

/-- A text that is not read has a place from which it cannot be read on, and the report shows it. The text in front of that place is
read by itself, and its tokens are those the call had read before it stopped. What begins there is faulty, for the cause that the
report gives: a character that begins nothing, a literal that is not closed on its line, or a comment that is not closed. -/
theorem tokensOf_fault {source : String} {e : LexError} (h : tokensOf source = .error e) :
    ∃ before rest cause, source.toList = before ++ rest ∧ e = ⟨cause.reason, .behind before⟩ ∧
      tokensOf (String.ofList before) = .ok (Lexer.scanned .start (Piece.pieces source.toList)) ∧ Piece.Faulty cause rest := by
  obtain ⟨clear, cause, text, rest, hcut, hclear, rfl⟩ := Lexer.read_eq_error_iff.mp h
  have hpieces : Piece.pieces source.toList = clear ++ ⟨.fault cause, text⟩ :: rest := hcut
  have hsource : source.toList = flatten clear ++ (text ++ flatten rest) :=
    (Piece.eq_flatten hpieces).trans (Piece.flatten_append clear _)
  refine ⟨flatten clear, text ++ flatten rest, cause, hsource, congrArg _ (Location.after_start _), ?_, ?_⟩
  · refine Lexer.read_eq_ok_iff.mpr ?_
    rw [Lexer.ofSource, String.toList_ofList, Piece.pieces_flatten_clear hpieces hclear, hpieces, Lexer.scanned_append hclear]
    exact ⟨hclear, (List.append_nil _).symm⟩
  · have hfault := Piece.pieces_flatten_behind hpieces
    rw [Piece.flatten_cons] at hfault
    obtain ⟨c, cs, hcs⟩ := List.exists_cons_of_ne_nil (l := text ++ flatten rest) fun hnil => by
      rw [hnil, Piece.pieces_nil] at hfault
      cases hfault
    rw [hcs, Piece.pieces_cons] at hfault
    rw [hcs]
    exact Piece.cut_eq_fault_iff.mp (congrArg Piece.reading (List.cons.inj hfault).1)

/-- The statement at a literal that ends in half of an escape, behind a point that would take a digit. -/
theorem tokensOf_fault_escapeAtEnd :
    let source := "x/'\\''1.\"\\"
    let e : LexError := ⟨"Unterminated string literal", ⟨1, 9⟩⟩
    tokensOf source = .error e ∧ ∃ before rest cause, source.toList = before ++ rest ∧ e = ⟨cause.reason, .behind before⟩ ∧
      tokensOf (String.ofList before) = .ok (Lexer.scanned .start (Piece.pieces source.toList)) ∧ Piece.Faulty cause rest := by
  intro source e
  have h : tokensOf source = .error e := by decide +kernel
  exact ⟨h, tokensOf_fault h⟩

end LoopForest
