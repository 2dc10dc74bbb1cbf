import LoopForest.Text.Piece

/-!
# Reading tokens off a text

A lexer is a place and the pieces still to read. One call of `Lexer.tokenize` reads on to the end of the text and answers the
lexemes on the way, each with its place, or it stops at the first fault and answers that fault alone. A faulty piece is used up by
the call that reports it, so the next call goes on behind it, and a fault never changes how the text behind it is cut.
-/

namespace LoopForest

/-- A fault in a text, in words, and the place where the faulty stretch begins. -/
structure LexError where
  reason : String
  location : Location
  deriving DecidableEq, Repr

/-- The report of a fault. -/
def LexError.message (e : LexError) : String := "Lexer error at " ++ e.location.describe ++ ": " ++ e.reason

/-- The place reached in a text and the pieces that begin there. -/
structure Lexer where
  location : Location
  pending : List Piece
  deriving DecidableEq, Repr

namespace Lexer

/-- A lexer at the beginning of a text. -/
def ofSource (source : String) : Lexer := ⟨.start, Piece.pieces source.toList⟩

/-- Reads the pieces that begin at `l`: the tokens up to the end of the text, or the first fault, and the lexer behind what was
read. -/
def read (l : Location) : List Piece → Except LexError (List Token) × Lexer
  | [] => (.ok [], ⟨l, []⟩)
  | ⟨.gap, text⟩ :: rest => read (l.after text) rest
  | ⟨.fault cause, text⟩ :: rest => (.error ⟨cause.reason, l⟩, ⟨l.after text, rest⟩)
  | ⟨.lexeme kind, text⟩ :: rest =>
    match read (l.after text) rest with
    | (.ok tokens, lexer) => (.ok (⟨kind, String.ofList text, l⟩ :: tokens), lexer)
    | (.error e, lexer) => (.error e, lexer)

/-- One call: the tokens from here to the end of the text, or the first fault on the way. -/
def tokenize (lexer : Lexer) : Except LexError (List Token) × Lexer := read lexer.location lexer.pending

end Lexer

/-- The tokens of a whole text, or its first fault. -/
def tokensOf (source : String) : Except LexError (List Token) := (Lexer.ofSource source).tokenize.1

end LoopForest
