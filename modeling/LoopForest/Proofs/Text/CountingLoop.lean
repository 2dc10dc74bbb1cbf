import LoopForest.Proofs.Loop.Delimiters
import LoopForest.Proofs.Text.Spacing

/-!
# Loops that count

The loops most programs have count a name up from one number to another. `CountingLoop.text` writes such a loop down, with a text of any
kind for its body, as long as the text is read without a fault and its braces are balanced: it may hold comments, other loops, and a
line at its end that the line break behind it has to close. What is written is read as the words one expects (`lexesTo_program`), for
one loop and for a program of any number of them on lines of their own.

The name may be any word, one of the keywords too, and the keyword of loops among them.
-/

namespace LoopForest

/-- The text is a letter or an underscore, and letters, digits and underscores behind it. -/
def IsName (text : String) : Prop :=
  ∃ c cs, text.toList = c :: cs ∧ (c.isAlpha ∨ c = '_') ∧ ∀ d ∈ cs, d.isAlphanum ∨ d = '_'

/-- The text is digits, at least one. -/
def IsNumeral (text : String) : Prop := text.toList ≠ [] ∧ ∀ d ∈ text.toList, d.isDigit

/-- A loop that counts `name` up from `start` to `limit`, one by one. The tokens are those of its body. -/
structure CountingLoop where
  name : String
  start : String
  limit : String
  body : String
  tokens : List Token
  isName : IsName name
  isNumeral_start : IsNumeral start
  isNumeral_limit : IsNumeral limit
  tokensOf_body : tokensOf body = .ok tokens
  balanced : Enclosure.body.Balanced tokens

namespace CountingLoop

/-- The loop as it is written. -/
def text (c : CountingLoop) : String :=
  "for(int " ++ c.name ++ " = " ++ c.start ++ "; " ++ c.name ++ " < " ++ c.limit ++ "; " ++ c.name ++ "++)\x7b" ++ "\n" ++ c.body ++
    "\n" ++ "\x7d"

/-- Loops as they are written, a line break between any two. -/
def program (loops : List CountingLoop) : String := String.intercalate "\n" (loops.map text)

/-- The words of the loop's header, without the parenthesis that closes it. -/
def headerWords (c : CountingLoop) : List (TokenKind × String) :=
  let name := (Piece.wordKind c.name.toList, c.name)
  [(.punctuation, "("), (.keyword, "int"), name, (.operator, "="), (.literal, c.start), (.punctuation, ";"), name, (.operator, "<"),
    (.literal, c.limit), (.punctuation, ";"), name, (.operator, "++")]

/-- The words of the loop. -/
def words (c : CountingLoop) : List (TokenKind × String) :=
  (.keyword, "for") :: (c.headerWords ++
    [(.punctuation, ")"), (.punctuation, "\x7b")] ++ c.tokens.map Token.word ++ [(.punctuation, "\x7d")])

end CountingLoop

/-! ## Words before a character that ends them -/

namespace LexesTo

variable {more : List Char} {words : List (TokenKind × String)}

theorem name {text : String} (ht : IsName text) {stop : Char} (hstop : Piece.isWordChar stop = false)
    (h : LexesTo (stop :: more) words) :
    LexesTo (text.toList ++ stop :: more) ((Piece.wordKind text.toList, text) :: words) := by
  obtain ⟨c, cs, htext, hc, hcs⟩ := ht
  have hrest : ∀ d ∈ (stop :: more).head?, ¬IsWordChar d := by simpa [← isWordChar_iff] using hstop
  have hword := h.word (.word hc hcs hrest)
  rwa [← List.cons_append, ← htext, String.ofList_toList] at hword

theorem numeral {text : String} (ht : IsNumeral text) {stop : Char} (hstop : stop.isDigit = false) (hpoint : stop ≠ '.')
    (h : LexesTo (stop :: more) words) : LexesTo (text.toList ++ stop :: more) ((.literal, text) :: words) := by
  obtain ⟨hne, hall⟩ := ht
  obtain ⟨c, cs, htext⟩ := List.exists_cons_of_ne_nil hne
  rw [htext] at hall
  obtain ⟨hc, hcs⟩ := List.forall_mem_cons.mp hall
  have hrest : ∀ d ∈ (stop :: more).head?, ¬d.isDigit := by simpa using hstop
  have hword := h.word (.whole hc hcs hrest fun _ _ heq => absurd (List.cons.inj heq).1 hpoint)
  rwa [← List.cons_append, ← htext, String.ofList_toList] at hword

theorem mark {c : Char} (hc : c ∈ Piece.punctuation) (h : LexesTo more words) :
    LexesTo (c :: more) ((.punctuation, String.ofList [c]) :: words) :=
  h.word (.mark hc more)

/-- An operator of one character, before one that does not make it a longer one. -/
theorem operator {c d : Char} (hc : c ∈ Piece.operators) (hslash : c ≠ '/') (hpair : (c, d) ∉ Piece.pairedOperators)
    (h : LexesTo (d :: more) words) : LexesTo (c :: d :: more) ((.operator, String.ofList [c]) :: words) :=
  h.word (.single hc (by simpa using hpair) fun hc => absurd hc hslash)

theorem pairedOperator {c d : Char} (hpair : (c, d) ∈ Piece.pairedOperators) (h : LexesTo more words) :
    LexesTo (c :: d :: more) ((.operator, String.ofList [c, d]) :: words) :=
  h.word (.pair hpair more)

theorem blank {b : Char} (hb : b ∈ [' ', '\t', '\r', '\n']) (h : LexesTo more words) : LexesTo (b :: more) words :=
  h.separator (.blank hb)

end LexesTo

/-! ## The words of a program -/

namespace CountingLoop

theorem toList_text (c : CountingLoop) (more : List Char) :
    c.text.toList ++ more =
      "for".toList ++ '(' :: ("int".toList ++ ' ' :: (c.name.toList ++ ' ' :: '=' :: ' ' :: (c.start.toList ++ ';' :: ' ' ::
        (c.name.toList ++ ' ' :: '<' :: ' ' :: (c.limit.toList ++ ';' :: ' ' :: (c.name.toList ++ '+' :: '+' :: ')' :: '{' :: '\n' ::
          (c.body.toList ++ '\n' :: '}' :: more))))))) := by
  have hfor : "for(int ".toList = "for".toList ++ '(' :: ("int".toList ++ [' ']) := rfl
  have hassign : " = ".toList = [' ', '=', ' '] := rfl
  have hless : " < ".toList = [' ', '<', ' '] := rfl
  have hnext : "; ".toList = [';', ' '] := rfl
  have hstep : "++)\x7b".toList = ['+', '+', ')', '{'] := rfl
  have hbreak : "\n".toList = ['\n'] := rfl
  have hclose : "\x7d".toList = ['}'] := rfl
  unfold text
  simp only [String.toList_append]
  simp only [hfor, hassign, hless, hnext, hstep, hbreak, hclose, List.append_assoc, List.cons_append, List.nil_append]

/-- The words of a loop and of what stands behind it. -/
theorem lexesTo_text (c : CountingLoop) {more : List Char} {words : List (TokenKind × String)} (h : LexesTo more words) :
    LexesTo (c.text.toList ++ more) (c.words ++ words) := by
  have hfor : IsName "for" := ⟨'f', ['o', 'r'], rfl, by decide, by simp⟩
  have hint : IsName "int" := ⟨'i', ['n', 't'], rfl, by decide, by simp⟩
  have hbody := (h.mark (c := '}') (by decide)).lines (l := .start) c.tokensOf_body
  have hopen := ((hbody.blank (b := '\n') (by decide)).mark (c := '{') (by decide)).mark (c := ')') (by decide)
  have hstep := hopen.pairedOperator (c := '+') (d := '+') (by decide)
  have hupdate := ((hstep.name c.isName (by decide)).blank (b := ' ') (by decide)).mark (c := ';') (by decide)
  have hlimit := (hupdate.numeral c.isNumeral_limit (by decide) (by decide)).blank (b := ' ') (by decide)
  have hless := (hlimit.operator (c := '<') (by decide) (by decide) (by decide)).blank (b := ' ') (by decide)
  have hcondition := ((hless.name c.isName (by decide)).blank (b := ' ') (by decide)).mark (c := ';') (by decide)
  have hstart := (hcondition.numeral c.isNumeral_start (by decide) (by decide)).blank (b := ' ') (by decide)
  have hassign := (hstart.operator (c := '=') (by decide) (by decide) (by decide)).blank (b := ' ') (by decide)
  have hheader := (((hassign.name c.isName (by decide)).blank (b := ' ') (by decide)).name hint (by decide)).mark (c := '(') (by decide)
  have hloop := hheader.name hfor (by decide)
  have hkeyword : Piece.wordKind "for".toList = .keyword := by decide
  have htype : Piece.wordKind "int".toList = .keyword := by decide
  rw [hkeyword, htype] at hloop
  rw [toList_text]
  simpa only [CountingLoop.words, headerWords, List.cons_append, List.nil_append, List.append_assoc] using hloop

/-- A program is read as the words of its loops. -/
theorem lexesTo_program (loops : List CountingLoop) : LexesTo (program loops).toList (loops.flatMap words) := by
  induction loops with
  | nil => exact .nil
  | cons c loops ih =>
    cases loops with
    | nil => simpa [program] using c.lexesTo_text .nil
    | cons d loops =>
      have hmore := ih.blank (b := '\n') (by decide)
      have happend : (program (c :: d :: loops)).toList = c.text.toList ++ '\n' :: (program (d :: loops)).toList := by
        rw [program, List.map_cons, List.map_cons, String.intercalate_cons_cons, String.toList_append, String.toList_append,
          List.append_assoc]
        rfl
      rw [happend, List.flatMap_cons]
      exact c.lexesTo_text hmore

end CountingLoop

end LoopForest
