import LoopForest.Text.Lexer
import LoopForest.Loop.Comparator
import LoopForest.Loop.Enclosure
import LoopForest.Forest.Basic

/-!
# Why a parser stops

An error says what went wrong and where. The place is that of a token the reader of the program can go to. An error that another
part of the library caused keeps that part's error as its source.
-/

namespace LoopForest

/-- Why a parser stops. -/
inductive ParseError where
  /-- The text has a fault. -/
  | lex (error : LexError)
  /-- The tokens ran out inside a construct; the place is that of the last token. -/
  | unterminated (enclosure : Enclosure) (location : Location)
  /-- The header of a loop does not have the form of one. -/
  | malformedHeader (reason : String) (location : Location)
  /-- Tokens are not the expression expected there. -/
  | unsupported (expression found : String) (location : Location)
  /-- A condition has no comparator. -/
  | invalidCondition (source : ComparatorError) (location : Location)
  /-- The forest refused a link. -/
  | tree (source : LinkError) (location : Location)
  deriving DecidableEq, Repr

namespace ParseError

/-- Where the error shows. -/
def location : ParseError → Location
  | .lex error => error.location
  | .unterminated _ location => location
  | .malformedHeader _ location => location
  | .unsupported _ _ location => location
  | .invalidCondition _ location => location
  | .tree _ location => location

/-- The report of an error. That of a fault of the text is the fault's own. -/
def message : ParseError → String
  | .lex error => error.message
  | .unterminated enclosure location =>
    "Unterminated " ++ enclosure.construct ++ " at " ++ location.describe ++ ": expected '" ++ enclosure.closing ++ "'"
  | .malformedHeader reason location => "Malformed for header at " ++ location.describe ++ ": " ++ reason
  | .unsupported expression found location =>
    "Unsupported " ++ expression ++ " shape at " ++ location.describe ++ ": " ++ found
  | .invalidCondition source location => "Invalid condition at " ++ location.describe ++ ": " ++ source.message
  | .tree source location => "Invalid tree at " ++ location.describe ++ ": " ++ source.message

/-- The report of the error that caused this one, if another part of the library did. -/
def source : ParseError → Option String
  | .invalidCondition source _ => some source.message
  | .tree source _ => some source.message
  | .lex _ | .unterminated .. | .malformedHeader .. | .unsupported .. => none

end ParseError

end LoopForest
