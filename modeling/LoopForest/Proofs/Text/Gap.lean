import LoopForest.Text.Piece
import Mathlib.Data.List.TakeWhile

/-!
# What stands between two tokens

A gap is any number of separators: blanks, closed comments, and lines of a comment or of a directive with the line break that ends
them (`Separator`, `Gap`). Behind the last token of a text there is room for one thing more, a line that the end of the text cuts
short (`LastGap`). These are grammars of their own and do not mention how a text is cut.

A piece that is read as a gap is one of the separators, or it is such a last line and nothing stands behind it (`cut_gap`).
-/

namespace LoopForest

/-- What opens a line that is not read to the next line break. -/
def lineOpenings : List (List Char) := [['#'], ['/', '/']]

/-- One thing that separates tokens and ends by itself: a blank, a comment up to the first close of it, or a line with its break. -/
inductive Separator : List Char → Prop where
  | blank {c : Char} (hc : c ∈ [' ', '\t', '\r', '\n']) : Separator [c]
  | comment {text : List Char} (hopen : ¬['*', '/'] <:+: text) : Separator (['/', '*'] ++ text ++ ['*', '/'])
  | line {opening text : List Char} (hopening : opening ∈ lineOpenings) (hline : '\n' ∉ text) :
    Separator (opening ++ text ++ ['\n'])

/-- Any number of separators. -/
inductive Gap : List Char → Prop where
  | nil : Gap []
  | cons {s w : List Char} (hs : Separator s) (hw : Gap w) : Gap (s ++ w)

/-- What stands behind the last token: a gap, and then perhaps a line without a break. -/
inductive LastGap : List Char → Prop where
  | closed {w : List Char} (hw : Gap w) : LastGap w
  | line {w opening text : List Char} (hw : Gap w) (hopening : opening ∈ lineOpenings) (hline : '\n' ∉ text) :
    LastGap (w ++ (opening ++ text))

theorem LastGap.cons {s w : List Char} (hs : Separator s) (hw : LastGap w) : LastGap (s ++ w) := by
  cases hw with
  | closed hw => exact .closed (.cons hs hw)
  | line hw hopening hline =>
    rw [← List.append_assoc]
    exact .line (.cons hs hw) hopening hline

namespace Piece

/-! ## Reading a gap -/

/-- A line is read through its break, and without a break it is the rest of the text. -/
theorem throughLineBreak_cases (cs : List Char) :
    (∃ text, '\n' ∉ text ∧ (throughLineBreak cs).1 = text ++ ['\n']) ∨
      ((throughLineBreak cs).2 = [] ∧ '\n' ∉ (throughLineBreak cs).1) := by
  have htake : '\n' ∉ cs.takeWhile (· != '\n') := by
    intro hm
    simpa using List.mem_takeWhile_imp hm
  unfold throughLineBreak
  cases hd : cs.dropWhile (· != '\n') with
  | nil => exact Or.inr ⟨rfl, by simpa using htake⟩
  | cons d ds =>
    have hbreak : d = '\n' := by
      have hhead := List.head_dropWhile_not (· != '\n') (by rw [hd]; exact List.cons_ne_nil d ds)
      simpa [hd] using hhead
    exact Or.inl ⟨_, htake, by rw [hbreak]; rfl⟩

/-- The close of a comment is the first one in the text behind its opening. -/
theorem throughClose_eq_some {cs text rest : List Char} (h : throughClose cs = some (text, rest)) :
    ∃ inner, text = inner ++ ['*', '/'] ∧ ¬['*', '/'] <:+: inner := by
  fun_induction throughClose cs generalizing text rest with
  | case1 => cases h
  | case2 cs =>
    obtain ⟨rfl, rfl⟩ := Prod.mk.inj (Option.some.inj h)
    exact ⟨[], rfl, by decide⟩
  | case3 c cs hclose ih =>
    obtain ⟨⟨t, r⟩, ht, he⟩ := Option.map_eq_some_iff.mp h
    obtain ⟨rfl, rfl⟩ := Prod.mk.inj he
    obtain ⟨inner, rfl, hinner⟩ := ih ht
    refine ⟨c :: inner, rfl, fun hm => ?_⟩
    rcases List.infix_cons_iff.mp hm with hfirst | hlater
    · -- a close right here would have ended the comment here
      obtain ⟨hc, tail, htail⟩ := List.cons_prefix_cons.mp hfirst
      have hcs := throughClose_append ht
      rw [← htail] at hcs
      exact hclose _ hc.symm hcs.symm
    · exact hinner hlater

theorem cutQuoted_ne_gap (quote : Char) (fault : Fault) (cs : List Char) : (cutQuoted quote fault cs).1 ≠ .gap := by
  unfold cutQuoted
  split <;> simp

/-- The text of a piece that is read as a gap is a separator, or a line that ends with the text. -/
def EndsGap (text rest : List Char) : Prop :=
  Separator text ∨ (rest = [] ∧ ∃ opening ∈ lineOpenings, ∃ line, '\n' ∉ line ∧ text = opening ++ line)

theorem endsGap_line (opening : List Char) (hopening : opening ∈ lineOpenings) (cs : List Char) :
    EndsGap (opening ++ (throughLineBreak cs).1) (throughLineBreak cs).2 := by
  rcases throughLineBreak_cases cs with ⟨text, htext, heq⟩ | ⟨hrest, htext⟩
  · rw [heq, ← List.append_assoc]
    exact Or.inl (.line hopening htext)
  · exact Or.inr ⟨hrest, opening, hopening, _, htext, rfl⟩

/-- The slash that begins a line comment is the first half of its opening. -/
theorem endsGap_lineComment {cs : List Char} (h : cs.head? = some '/') :
    EndsGap ('/' :: (throughLineBreak cs).1) (throughLineBreak cs).2 := by
  obtain ⟨ds, rfl⟩ := List.head?_eq_some_iff.mp h
  have hslash : throughLineBreak ('/' :: ds) = ('/' :: (throughLineBreak ds).1, (throughLineBreak ds).2) := rfl
  rw [hslash]
  exact endsGap_line ['/', '/'] (by decide) ds

theorem endsGap_comment {cs : List Char} (h : cs.head? = some '*') (hgap : (cutComment cs).1 = .gap) :
    EndsGap ('/' :: (cutComment cs).2.1) (cutComment cs).2.2 := by
  obtain ⟨ds, rfl⟩ := List.head?_eq_some_iff.mp h
  unfold cutComment at hgap ⊢
  cases hc : throughClose ds with
  | none => simp [hc] at hgap
  | some found =>
    obtain ⟨text, rest⟩ := found
    obtain ⟨inner, rfl, hinner⟩ := throughClose_eq_some hc
    simp only [List.drop_one, List.tail_cons, hc]
    exact Or.inl (.comment hinner)

/-- A piece that is read as a gap is a separator, or a line that ends with the text. -/
theorem cut_gap {c : Char} {cs : List Char} (h : (cut c cs).1 = .gap) : EndsGap (c :: (cut c cs).2.1) (cut c cs).2.2 := by
  have hcut := cutBy_cut c cs
  generalize cut c cs = r at h hcut ⊢
  cases hcut with
  | blank hblank => exact Or.inl (.blank hblank)
  | directive hhash =>
    rw [hhash]
    exact endsGap_line ['#'] (by decide) cs
  | lineComment hslash hnext =>
    rw [hslash]
    exact endsGap_lineComment hnext
  | comment hslash hnext =>
    rw [hslash]
    exact endsGap_comment hnext h
  | string => exact absurd h (cutQuoted_ne_gap _ _ _)
  | character => exact absurd h (cutQuoted_ne_gap _ _ _)
  | number | word | mark | operator | unexpected => cases h

end Piece

end LoopForest
