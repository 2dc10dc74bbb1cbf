import LoopForest.Proofs.Text.Gap
import Mathlib

/-!
# How lexemes are cut

`LexemeBy` gathers the ways to cut a lexeme off a text, as `CutBy` does for all pieces, and `cut_eq_lexeme_iff` says that there are no
others. How far a lexeme reaches depends on the text behind it. A separator ends by itself, whatever comes next (`pieces_separator`).
-/

namespace LoopForest

namespace Piece

/-! ## What calls for a cut -/

/-- The characters that begin a gap or a literal between quotes. -/
def openings : List Char := [' ', '\t', '\r', '\n', '#', '/', '\"', '\'']

theorem not_mem_openings {c : Char} {p : Char → Bool} (hp : openings.any p = false) (h : p c = true) : c ∉ openings :=
  fun hm => List.any_eq_false.mp hp c hm h

theorem isDigit_eq_false_of_isWordStart {c : Char} (h : isWordStart c) : c.isDigit = false := by
  refine Bool.eq_false_iff.mpr ?_
  simp only [isWordStart, Char.isAlpha, Char.isUpper, Char.isLower, Bool.or_eq_true, Bool.and_eq_true, decide_eq_true_eq,
    beq_iff_eq, UInt32.le_iff_toNat_le, ge_iff_le] at h
  rcases h with h | rfl
  · simp only [Char.isDigit, Bool.and_eq_true, decide_eq_true_eq, ne_eq, UInt32.le_iff_toNat_le, ge_iff_le]
    have hA : 'A'.val.toNat = 65 := rfl
    have ha : 'a'.val.toNat = 97 := rfl
    have h9 : '9'.val.toNat = 57 := rfl
    omega
  · decide

/-- What calls for a way to cut leads to it: no two of the ways are called for at once. -/
theorem CutBy.cut_eq {c : Char} {cs : List Char} {r : Reading × List Char × List Char} (h : CutBy c cs r) : cut c cs = r := by
  cases h with
  | blank h => exact if_pos h
  | directive h => subst h; rfl
  | lineComment h hnext => subst h; simp [cut, blanks, hnext]
  | comment h hnext => subst h; simp [cut, blanks, hnext]
  | string h => subst h; rfl
  | character h => subst h; rfl
  | number h =>
    have hno := not_mem_openings (by decide) h
    simp only [openings, List.mem_cons, List.not_mem_nil, or_false, not_or] at hno
    simp [cut, blanks, hno, h]
  | word h =>
    have hno := not_mem_openings (by decide) h
    simp only [openings, List.mem_cons, List.not_mem_nil, or_false, not_or] at hno
    simp [cut, blanks, hno, h, isDigit_eq_false_of_isWordStart h]
  | mark h =>
    simp only [punctuation, List.mem_cons, List.not_mem_nil, or_false] at h
    rcases h with rfl | rfl | rfl | rfl | rfl | rfl | rfl | rfl <;> rfl
  | operator h hline hcomment =>
    have hno : operators.all fun d => d ∉ blanks ∧ d ≠ '#' ∧ d ≠ '\"' ∧ d ≠ '\'' ∧ d.isDigit = false ∧ isWordStart d = false ∧
        d ∉ punctuation := by decide
    obtain ⟨hblank, hhash, hstring, hcharacter, hdigit, hword, hmark⟩ := of_decide_eq_true (List.all_eq_true.mp hno c h)
    unfold cut
    rw [if_neg hblank, if_neg hhash, if_neg hline, if_neg hcomment, if_neg hstring, if_neg hcharacter]
    simp [hdigit, hword, hmark, h]
  | unexpected hgap hquote hword hmark =>
    have hslash : c ≠ '/' := fun h => hmark.2 (h ▸ by decide)
    simp [cut, hgap, hquote, hword, hmark, hslash]

/-- The ways to cut a lexeme that begins with `c` off a text: its kind, what belongs to it behind `c`, and what stands behind it. -/
inductive LexemeBy (c : Char) (cs : List Char) : TokenKind → List Char → List Char → Prop where
  | quoted {text rest : List Char} (h : c = '\"' ∨ c = '\'') (hclosed : throughQuote c cs = (true, text, rest)) :
    LexemeBy c cs .literal text rest
  | number {text rest : List Char} (h : c.isDigit) (hcut : restOfNumber cs = (text, rest)) : LexemeBy c cs .literal text rest
  | word {text rest : List Char} (h : isWordStart c) (hcut : restOfWord cs = (text, rest)) :
    LexemeBy c cs (wordKind (c :: text)) text rest
  | mark (h : c ∈ punctuation) : LexemeBy c cs .punctuation [] cs
  | operator {text rest : List Char} (h : c ∈ operators) (hline : ¬(c = '/' ∧ cs.head? = some '/'))
    (hcomment : ¬(c = '/' ∧ cs.head? = some '*')) (hcut : restOfOperator c cs = (text, rest)) :
    LexemeBy c cs .operator text rest

/-- A literal is cut where its quote is closed. -/
theorem cutQuoted_eq_lexeme_iff {quote : Char} {fault : Fault} {cs text rest : List Char} {kind : TokenKind} :
    cutQuoted quote fault cs = (.lexeme kind, text, rest) ↔ kind = .literal ∧ throughQuote quote cs = (true, text, rest) := by
  unfold cutQuoted
  rcases throughQuote quote cs with ⟨_ | _, t, r⟩ <;> simp [eq_comm]

theorem cut_eq_lexeme_iff {c : Char} {cs text rest : List Char} {kind : TokenKind} :
    cut c cs = (.lexeme kind, text, rest) ↔ LexemeBy c cs kind text rest := by
  constructor
  · intro h
    have hcut := cutBy_cut c cs
    generalize cut c cs = r at h hcut
    cases hcut with
    | blank | directive | lineComment | unexpected => cases h
    | comment =>
      unfold cutComment at h
      split at h <;> cases h
    | string hquote =>
      obtain ⟨rfl, hclosed⟩ := cutQuoted_eq_lexeme_iff.mp h
      exact .quoted (Or.inl hquote) hclosed
    | character hquote =>
      obtain ⟨rfl, hclosed⟩ := cutQuoted_eq_lexeme_iff.mp h
      exact .quoted (Or.inr hquote) hclosed
    | number hdigit =>
      obtain ⟨hkind, hrest⟩ := Prod.mk.inj h
      obtain rfl := Reading.lexeme.inj hkind
      exact .number hdigit hrest
    | word hstart =>
      obtain ⟨hkind, hrest⟩ := Prod.mk.inj h
      obtain rfl := Reading.lexeme.inj hkind
      have hword := LexemeBy.word hstart hrest
      rwa [hrest]
    | mark hmark =>
      obtain ⟨hkind, hrest⟩ := Prod.mk.inj h
      obtain rfl := Reading.lexeme.inj hkind
      obtain ⟨rfl, rfl⟩ := Prod.mk.inj hrest
      exact .mark hmark
    | operator hoperator hline hcomment =>
      obtain ⟨hkind, hrest⟩ := Prod.mk.inj h
      obtain rfl := Reading.lexeme.inj hkind
      exact .operator hoperator hline hcomment hrest
  · intro h
    cases h with
    | quoted hquote hclosed =>
      rcases hquote with rfl | rfl
      · exact (CutBy.string rfl).cut_eq.trans (cutQuoted_eq_lexeme_iff.mpr ⟨rfl, hclosed⟩)
      · exact (CutBy.character rfl).cut_eq.trans (cutQuoted_eq_lexeme_iff.mpr ⟨rfl, hclosed⟩)
    | number hdigit hcut => rw [(CutBy.number hdigit).cut_eq, hcut]
    | word hstart hcut => rw [(CutBy.word hstart).cut_eq, hcut]
    | mark hmark => exact (CutBy.mark hmark).cut_eq
    | operator hoperator hline hcomment hcut => rw [(CutBy.operator hoperator hline hcomment).cut_eq, hcut]

/-- What is read and what is left make up the text. -/
theorem LexemeBy.append_eq {c : Char} {cs text rest : List Char} {kind : TokenKind} (h : LexemeBy c cs kind text rest) :
    text ++ rest = cs := by
  have hcut := cut_append c cs
  rwa [cut_eq_lexeme_iff.mpr h] at hcut

/-! ## Runs of characters -/

section Run

variable {p : Char → Bool} {run rest : List Char}

/-- A run of characters and what it stops before. -/
theorem takeWhile_run (hrun : ∀ c ∈ run, p c) (hrest : ∀ c ∈ rest.head?, ¬p c) :
    (run ++ rest).takeWhile p = run ∧ (run ++ rest).dropWhile p = rest := by
  have hstop : rest.takeWhile p = [] ∧ rest.dropWhile p = rest := by
    cases rest with
    | nil => exact ⟨rfl, rfl⟩
    | cons c rest => simpa using hrest c rfl
  rw [List.takeWhile_append_of_pos hrun, List.dropWhile_append_of_pos hrun, hstop.1, hstop.2, List.append_nil]
  exact ⟨rfl, rfl⟩

/-- What a run of characters stops before does not go on with it. -/
theorem not_head?_dropWhile (p : Char → Bool) (cs : List Char) : ∀ c ∈ (cs.dropWhile p).head?, ¬p c := by
  intro c hc
  have hhead := List.head?_dropWhile_not p cs
  rw [hc] at hhead
  simpa using hhead

end Run

/-! ## Separators -/

/-- A line ends with its break, whatever stands behind it. -/
theorem throughLineBreak_closed {line : List Char} (h : '\n' ∉ line) (more : List Char) :
    throughLineBreak (line ++ '\n' :: more) = (line ++ ['\n'], more) := by
  have hall : ∀ c ∈ line, (c != '\n') = true := by
    intro c hc
    simpa using fun heq : c = '\n' => h (heq ▸ hc)
  have hstop : ∀ c ∈ ('\n' :: more).head?, ¬(c != '\n') := by simp
  obtain ⟨htake, hdrop⟩ := takeWhile_run hall hstop
  rw [throughLineBreak, htake, hdrop]
  rfl

/-- A comment ends with its first close, whatever stands behind it. -/
theorem throughClose_closed {text : List Char} (h : ¬['*', '/'] <:+: text) (more : List Char) :
    throughClose (text ++ '*' :: '/' :: more) = some (text ++ ['*', '/'], more) := by
  induction text with
  | nil => rfl
  | cons c text ih =>
    have hfirst : ∀ rest, c = '*' → text ++ '*' :: '/' :: more = '/' :: rest → False := by
      rintro rest rfl heq
      cases text with
      | nil => cases heq
      | cons d text =>
        obtain ⟨rfl, -⟩ := List.cons.inj heq
        exact h ⟨[], text, rfl⟩
    rw [List.cons_append, throughClose.eq_3 _ _ hfirst, ih fun hm => h (List.infix_cons hm)]
    rfl

/-- A separator is one piece, whatever stands behind it. -/
theorem pieces_separator {s : List Char} (hs : Separator s) (more : List Char) :
    pieces (s ++ more) = ⟨.gap, s⟩ :: pieces more := by
  cases hs with
  | @blank c hc => rw [List.singleton_append, pieces_cons, (CutBy.blank hc).cut_eq]
  | @comment text hopen =>
    have hcut : cut '/' ('*' :: (text ++ '*' :: '/' :: more)) = (.gap, '*' :: (text ++ ['*', '/']), more) := by
      rw [(CutBy.comment rfl rfl).cut_eq, cutComment, List.drop_one, List.tail_cons, throughClose_closed hopen]
      rfl
    have happend : ['/', '*'] ++ text ++ ['*', '/'] ++ more = '/' :: '*' :: (text ++ '*' :: '/' :: more) := by simp
    rw [happend, pieces_cons, hcut]
    rfl
  | @line opening text hopening hline =>
    simp only [lineOpenings, List.mem_cons, List.not_mem_nil, or_false] at hopening
    rcases hopening with rfl | rfl
    · have hcut : cut '#' (text ++ '\n' :: more) = (.gap, text ++ ['\n'], more) := by
        rw [(CutBy.directive rfl).cut_eq, throughLineBreak_closed hline]
      have happend : ['#'] ++ text ++ ['\n'] ++ more = '#' :: (text ++ '\n' :: more) := by simp
      rw [happend, pieces_cons, hcut]
      rfl
    · have hline' : '\n' ∉ '/' :: text := fun hm => hline (by simpa using hm)
      have hcut : cut '/' ('/' :: text ++ '\n' :: more) = (.gap, '/' :: text ++ ['\n'], more) := by
        rw [(CutBy.lineComment rfl rfl).cut_eq, throughLineBreak_closed hline']
      have happend : ['/', '/'] ++ text ++ ['\n'] ++ more = '/' :: ('/' :: text ++ '\n' :: more) := by simp
      rw [happend, pieces_cons, hcut]
      rfl

end Piece

end LoopForest
