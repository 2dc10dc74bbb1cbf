import LoopForest.Text.Location

/-!
# Tokens

A token is a kind, the text as written and the place where that text begins. Whoever reads tokens recognises keywords and
delimiters by their text alone (`Token.is`), so a token built by hand only needs the right text. The kind is for reports.
-/

namespace LoopForest

/-- What sort of word a token is. -/
inductive TokenKind where
  | keyword | identifier | literal | operator | punctuation
  deriving DecidableEq, Repr

/-- The name of a kind. -/
def TokenKind.describe : TokenKind → String
  | .keyword => "keyword"
  | .identifier => "identifier"
  | .literal => "literal"
  | .operator => "operator"
  | .punctuation => "punctuation"

/-- A word of the text: its kind, the text as written and where it begins. -/
structure Token where
  kind : TokenKind
  value : String
  location : Location
  deriving DecidableEq, Repr

namespace Token

/-- The token's text is exactly `text`. -/
def is (t : Token) (text : String) : Bool := t.value == text

/-- A token in words: its kind and its text between single quotes. -/
def describe (t : Token) : String := t.kind.describe ++ " '" ++ t.value ++ "'"

/-- The texts of some tokens, one space between any two of them. -/
def joined (tokens : List Token) : String := String.intercalate " " (tokens.map (·.value))

@[simp] theorem is_eq_true_iff (t : Token) (text : String) : t.is text = true ↔ t.value = text := by
  simp [is]

end Token

end LoopForest
