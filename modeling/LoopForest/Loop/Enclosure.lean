import LoopForest.Text.Token

/-!
# Enclosed stretches of tokens

The header and the body of a loop are stretches of tokens between two delimiters. Where such a stretch ends is decided in one of two
ways. Balanced matching keeps count of the delimiters: an opening one adds to the depth, a closing one takes from it, and the
stretch ends with the closing one that brings the depth to zero or finds it there. Lexical matching ends with the first closing
delimiter, however many are open. `Enclosure.cut?` cuts the stretch off a list of tokens; it fails only when the tokens run out, and
what it cuts off, the closing delimiter included, followed by what it leaves is the list it was given (`Enclosure.cut?_append`).
-/

namespace LoopForest

/-- How the end of an enclosed stretch is found. -/
inductive Matching where
  | balanced | lexical
  deriving DecidableEq, Repr

/-- A construct that two delimiters enclose: what it is called and the texts of the two. -/
structure Enclosure where
  construct : String
  opening : String
  closing : String
  deriving DecidableEq, Repr

namespace Enclosure

/-- The header of a loop. -/
def header : Enclosure := ⟨"for header", "(", ")"⟩

/-- The body of a loop. -/
def body : Enclosure := ⟨"for body", "\x7b", "\x7d"⟩

/-- The depth behind a token that stands at `depth`, or nothing when the token ends the stretch. -/
def step (enclosure : Enclosure) : Matching → Nat → Token → Option Nat
  | .lexical, depth, t => if t.is enclosure.closing then none else some depth
  | .balanced, depth, t =>
    if t.is enclosure.opening then some (depth + 1)
    else if t.is enclosure.closing then
      if depth ≤ 1 then none else some (depth - 1)
    else some depth

/-- An enclosed stretch cut off a list of tokens: the tokens before the one that ends it, that token, and the tokens behind it. -/
structure Cut where
  inner : List Token
  closer : Token
  rest : List Token
  deriving DecidableEq, Repr

/-- The tokens of a stretch with the one that ends it. -/
def Cut.closed (c : Cut) : List Token := c.inner ++ [c.closer]

/-- Cuts off the stretch that ends first when reading begins at `depth`, or nothing when the tokens run out before it ends. -/
def cut? (enclosure : Enclosure) (matching : Matching) : Nat → List Token → Option Cut
  | _, [] => none
  | depth, t :: ts =>
    match enclosure.step matching depth t with
    | none => some ⟨[], t, ts⟩
    | some depth => (enclosure.cut? matching depth ts).map fun c => { c with inner := t :: c.inner }

/-- A cut loses nothing. -/
theorem cut?_append {enclosure : Enclosure} {matching : Matching} {depth : Nat} {ts : List Token} {c : Cut}
    (h : enclosure.cut? matching depth ts = some c) : c.closed ++ c.rest = ts := by
  induction ts generalizing depth c with
  | nil => simp [cut?] at h
  | cons t ts ih =>
    rw [cut?] at h
    split at h
    · obtain rfl := Option.some.inj h
      rfl
    · obtain ⟨d, hd, rfl⟩ := Option.map_eq_some_iff.mp h
      exact congrArg (t :: ·) (ih hd)

/-- What a cut takes does not depend on the tokens behind it. -/
theorem cut?_followed {enclosure : Enclosure} {matching : Matching} {depth : Nat} {ts : List Token} {c : Cut}
    (h : enclosure.cut? matching depth ts = some c) (rest : List Token) :
    enclosure.cut? matching depth (c.closed ++ rest) = some { c with rest := rest } := by
  induction ts generalizing depth c with
  | nil => simp [cut?] at h
  | cons t ts ih =>
    rw [cut?] at h
    cases hs : enclosure.step matching depth t with
    | none =>
      rw [hs] at h
      obtain rfl := Option.some.inj h
      simp [Cut.closed, cut?, hs]
    | some d =>
      rw [hs] at h
      obtain ⟨inner, hi, rfl⟩ := Option.map_eq_some_iff.mp h
      have hrec := ih hi
      simp only [Cut.closed, List.append_assoc, List.singleton_append] at hrec
      simp [Cut.closed, cut?, hs, hrec]

/-- A cut takes at least the token that ends the stretch. -/
theorem length_rest_lt {enclosure : Enclosure} {matching : Matching} {depth : Nat} {ts : List Token} {c : Cut}
    (h : enclosure.cut? matching depth ts = some c) : c.rest.length < ts.length := by
  rw [← cut?_append h, List.length_append, Cut.closed, List.length_append, List.length_singleton]
  omega

end Enclosure

end LoopForest
