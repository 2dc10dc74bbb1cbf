import LoopForest.Text.Token

/-!
# Pieces of a text

A text is cut from left to right into pieces, each read as one thing: a gap (a blank, a comment or a directive line), a lexeme of
some kind, or a fault (a stretch that is neither). Nothing is skipped and nothing is read twice: the pieces put end to end are the
text (`Piece.flatten_pieces`), and no piece is empty (`Piece.text_ne_nil`). The first character of a piece and, for a slash, the
one behind it decide how the piece is read; `Piece.cut` then says how much of the text behind that character belongs to it.

What a character may begin is decided over the basic alphabet alone: digits are `0` to `9`, letters `a` to `z` and `A` to `Z`, and
the blanks are the space, the tab and the two line ends. Every other character outside a literal or a comment is a fault.
-/

namespace LoopForest

/-- Why a stretch of text is neither a gap nor a lexeme. -/
inductive Fault where
  | unexpected (c : Char)
  | openString
  | openCharacter
  | openComment
  deriving DecidableEq, Repr

/-- A fault in words. -/
def Fault.reason : Fault → String
  | .unexpected c => "Unexpected character: '" ++ String.singleton c ++ "'"
  | .openString => "Unterminated string literal"
  | .openCharacter => "Unterminated character literal"
  | .openComment => "Unterminated block comment"

/-- What a stretch of text is read as. -/
inductive Reading where
  | gap
  | lexeme (kind : TokenKind)
  | fault (cause : Fault)
  deriving DecidableEq, Repr

/-- A stretch of text and what it is read as. -/
structure Piece where
  reading : Reading
  text : List Char
  deriving DecidableEq, Repr

namespace Piece

/-! ## Alphabets and tables -/

/-- The characters that only separate. -/
def blanks : List Char := [' ', '\t', '\r', '\n']

/-- The marks that stand alone. -/
def punctuation : List Char := ['(', ')', '{', '}', '[', ']', ';', ',']

/-- The characters an operator can begin with; each is an operator by itself. -/
def operators : List Char :=
  ['+', '-', '*', '/', '%', '=', '!', '<', '>', '&', '|', '^', '~', '.', '?', ':']

/-- The operators of two characters. Where one of them can be read, the longer one is. -/
def pairedOperators : List (Char × Char) :=
  [('+', '+'), ('-', '-'), ('+', '='), ('-', '='), ('*', '='), ('/', '='), ('%', '='), ('&', '='), ('|', '='), ('^', '='),
    ('=', '='), ('!', '='), ('<', '='), ('>', '='), ('&', '&'), ('|', '|'), ('<', '<'), ('>', '>'), ('-', '>')]

/-- The words that are not identifiers. -/
def keywords : List String :=
  ["int", "char", "void", "float", "double", "long", "short", "unsigned", "signed", "struct", "const", "if", "else", "while",
    "do", "for", "switch", "case", "default", "break", "continue", "return", "goto", "sizeof", "typedef", "NULL"]

/-- A word begins with a letter or an underscore. -/
def isWordStart (c : Char) : Bool := c.isAlpha || c == '_'

/-- A word goes on with letters, digits and underscores. -/
def isWordChar (c : Char) : Bool := c.isAlphanum || c == '_'

/-! ## How far a piece reaches

Each function takes the text behind the first character of a piece (or, for a block comment, behind its opening) and gives the
part that still belongs to the piece and the part behind it. -/

/-- A line comment or a directive runs through the next line break, or to the end of the text when there is none. -/
def throughLineBreak (cs : List Char) : List Char × List Char :=
  (cs.takeWhile (· != '\n') ++ (cs.dropWhile (· != '\n')).take 1, (cs.dropWhile (· != '\n')).drop 1)

/-- A block comment runs through the first star with a slash behind it; without one it is not closed. -/
def throughClose : List Char → Option (List Char × List Char)
  | [] => none
  | '*' :: '/' :: cs => some (['*', '/'], cs)
  | c :: cs => (throughClose cs).map fun (text, rest) => (c :: text, rest)

/-- A quoted literal runs through the next `quote`. A backslash takes the character behind it along, whatever it is; a line break
that no backslash takes along, or the end of the text, leaves the literal open, and a line break is then left standing. -/
def throughQuote (quote : Char) : List Char → Bool × List Char × List Char
  | [] => (false, [], [])
  | c :: cs =>
    if c = '\n' then (false, [], c :: cs)
    else if c = '\\' then
      match cs with
      | [] => (false, [c], [])
      | d :: ds =>
        match throughQuote quote ds with
        | (closed, text, rest) => (closed, c :: d :: text, rest)
    else if c = quote then (true, [c], cs)
    else
      match throughQuote quote cs with
      | (closed, text, rest) => (closed, c :: text, rest)

/-- A number is digits with at most one point in them, and the point counts only with a digit behind it. -/
def restOfNumber (cs : List Char) : List Char × List Char :=
  match cs.dropWhile Char.isDigit with
  | '.' :: d :: ds =>
    if d.isDigit then
      (cs.takeWhile Char.isDigit ++ '.' :: d :: ds.takeWhile Char.isDigit, ds.dropWhile Char.isDigit)
    else (cs.takeWhile Char.isDigit, '.' :: d :: ds)
  | rest => (cs.takeWhile Char.isDigit, rest)

/-- A word is as long as it can be. -/
def restOfWord (cs : List Char) : List Char × List Char :=
  (cs.takeWhile isWordChar, cs.dropWhile isWordChar)

/-- An operator takes a second character when the two are a paired operator. -/
def restOfOperator (c : Char) : List Char → List Char × List Char
  | [] => ([], [])
  | d :: cs => if (c, d) ∈ pairedOperators then ([d], cs) else ([], d :: cs)

/-- A literal that opens with `quote`, or the fault of leaving it open. -/
def cutQuoted (quote : Char) (fault : Fault) (cs : List Char) : Reading × List Char × List Char :=
  match throughQuote quote cs with
  | (true, text, rest) => (.lexeme .literal, text, rest)
  | (false, text, rest) => (.fault fault, text, rest)

/-- A block comment behind its opening slash, or the fault of leaving it open, which takes the whole text. The star of the
opening is not the star of the close. -/
def cutComment (cs : List Char) : Reading × List Char × List Char :=
  match throughClose (cs.drop 1) with
  | some (text, rest) => (.gap, cs.take 1 ++ text, rest)
  | none => (.fault .openComment, cs, [])

/-- A word is a keyword when the table says so. -/
def wordKind (word : List Char) : TokenKind :=
  if String.ofList word ∈ keywords then .keyword else .identifier

/-- The piece that begins with `c`, when `cs` is the text behind it: what it is read as, the part of `cs` that belongs to it and the
part behind it. -/
def cut (c : Char) (cs : List Char) : Reading × List Char × List Char :=
  if c ∈ blanks then (.gap, [], cs)
  else if c = '#' then (.gap, throughLineBreak cs)
  else if c = '/' ∧ cs.head? = some '/' then (.gap, throughLineBreak cs)
  else if c = '/' ∧ cs.head? = some '*' then cutComment cs
  else if c = '\"' then cutQuoted c .openString cs
  else if c = '\'' then cutQuoted c .openCharacter cs
  else if c.isDigit then (.lexeme .literal, restOfNumber cs)
  else if isWordStart c then (.lexeme (wordKind (c :: (restOfWord cs).1)), restOfWord cs)
  else if c ∈ punctuation then (.lexeme .punctuation, [], cs)
  else if c ∈ operators then (.lexeme .operator, restOfOperator c cs)
  else (.fault (.unexpected c), [], cs)

/-- The ways to cut a piece that begins with `c` off a text, each with what calls for it. -/
inductive CutBy (c : Char) (cs : List Char) : Reading × List Char × List Char → Prop where
  | blank (h : c ∈ blanks) : CutBy c cs (.gap, [], cs)
  | directive (h : c = '#') : CutBy c cs (.gap, throughLineBreak cs)
  | lineComment (h : c = '/') (hnext : cs.head? = some '/') : CutBy c cs (.gap, throughLineBreak cs)
  | comment (h : c = '/') (hnext : cs.head? = some '*') : CutBy c cs (cutComment cs)
  | string (h : c = '\"') : CutBy c cs (cutQuoted c .openString cs)
  | character (h : c = '\'') : CutBy c cs (cutQuoted c .openCharacter cs)
  | number (h : c.isDigit) : CutBy c cs (.lexeme .literal, restOfNumber cs)
  | word (h : isWordStart c) : CutBy c cs (.lexeme (wordKind (c :: (restOfWord cs).1)), restOfWord cs)
  | mark (h : c ∈ punctuation) : CutBy c cs (.lexeme .punctuation, [], cs)
  | operator (h : c ∈ operators) (hline : ¬(c = '/' ∧ cs.head? = some '/')) (hcomment : ¬(c = '/' ∧ cs.head? = some '*')) :
    CutBy c cs (.lexeme .operator, restOfOperator c cs)
  | unexpected (hgap : c ∉ blanks ∧ c ≠ '#') (hquote : c ≠ '\"' ∧ c ≠ '\'') (hword : ¬c.isDigit ∧ ¬isWordStart c)
    (hmark : c ∉ punctuation ∧ c ∉ operators) : CutBy c cs (.fault (.unexpected c), [], cs)

/-- Every piece is cut in one of these ways. -/
theorem cutBy_cut (c : Char) (cs : List Char) : CutBy c cs (cut c cs) := by
  unfold cut
  by_cases hblank : c ∈ blanks
  · rw [if_pos hblank]
    exact .blank hblank
  rw [if_neg hblank]
  by_cases hhash : c = '#'
  · rw [if_pos hhash]
    exact .directive hhash
  rw [if_neg hhash]
  by_cases hline : c = '/' ∧ cs.head? = some '/'
  · rw [if_pos hline]
    exact .lineComment hline.1 hline.2
  rw [if_neg hline]
  by_cases hcomment : c = '/' ∧ cs.head? = some '*'
  · rw [if_pos hcomment]
    exact .comment hcomment.1 hcomment.2
  rw [if_neg hcomment]
  by_cases hstring : c = '\"'
  · rw [if_pos hstring]
    exact .string hstring
  rw [if_neg hstring]
  by_cases hcharacter : c = '\''
  · rw [if_pos hcharacter]
    exact .character hcharacter
  rw [if_neg hcharacter]
  by_cases hdigit : c.isDigit
  · rw [if_pos hdigit]
    exact .number hdigit
  rw [if_neg hdigit]
  by_cases hword : isWordStart c
  · rw [if_pos hword]
    exact .word hword
  rw [if_neg hword]
  by_cases hmark : c ∈ punctuation
  · rw [if_pos hmark]
    exact .mark hmark
  rw [if_neg hmark]
  by_cases hoperator : c ∈ operators
  · rw [if_pos hoperator]
    exact .operator hoperator hline hcomment
  rw [if_neg hoperator]
  exact .unexpected ⟨hblank, hhash⟩ ⟨hstring, hcharacter⟩ ⟨hdigit, hword⟩ ⟨hmark, hoperator⟩

/-! ## Nothing is lost -/

theorem throughLineBreak_append (cs : List Char) : (throughLineBreak cs).1 ++ (throughLineBreak cs).2 = cs := by
  rw [throughLineBreak, List.append_assoc, List.take_append_drop, List.takeWhile_append_dropWhile]

theorem throughClose_append {cs text rest : List Char} (h : throughClose cs = some (text, rest)) : text ++ rest = cs := by
  fun_induction throughClose cs generalizing text rest with
  | case1 => simp at h
  | case2 cs =>
    obtain ⟨rfl, rfl⟩ := Prod.mk.inj (Option.some.inj h)
    rfl
  | case3 c cs _ ih =>
    obtain ⟨⟨t, r⟩, ht, he⟩ := Option.map_eq_some_iff.mp h
    obtain ⟨rfl, rfl⟩ := Prod.mk.inj he
    simp [ih ht]

theorem throughQuote_append (quote : Char) (cs : List Char) :
    (throughQuote quote cs).2.1 ++ (throughQuote quote cs).2.2 = cs := by
  fun_induction throughQuote quote cs <;> simp_all

theorem restOfNumber_append (cs : List Char) : (restOfNumber cs).1 ++ (restOfNumber cs).2 = cs := by
  unfold restOfNumber
  split
  · next d ds h =>
    split
    · have hall := List.takeWhile_append_dropWhile (p := Char.isDigit) (l := cs)
      rw [h] at hall
      simpa [List.append_assoc] using hall
    · rw [← h]
      exact List.takeWhile_append_dropWhile
  · next h => exact List.takeWhile_append_dropWhile

theorem restOfWord_append (cs : List Char) : (restOfWord cs).1 ++ (restOfWord cs).2 = cs :=
  List.takeWhile_append_dropWhile

theorem restOfOperator_append (c : Char) (cs : List Char) : (restOfOperator c cs).1 ++ (restOfOperator c cs).2 = cs := by
  unfold restOfOperator
  split
  · rfl
  · split <;> rfl

theorem cutQuoted_append (quote : Char) (fault : Fault) (cs : List Char) :
    (cutQuoted quote fault cs).2.1 ++ (cutQuoted quote fault cs).2.2 = cs := by
  have h := throughQuote_append quote cs
  unfold cutQuoted
  split <;> simp_all

theorem cutComment_append (cs : List Char) : (cutComment cs).2.1 ++ (cutComment cs).2.2 = cs := by
  unfold cutComment
  split
  · next text rest h =>
    rw [List.append_assoc, throughClose_append h, List.take_append_drop]
  · simp

/-- A cut loses nothing: the part that belongs to the piece and the part behind it make up the text. -/
theorem cut_append (c : Char) (cs : List Char) : (cut c cs).2.1 ++ (cut c cs).2.2 = cs := by
  have hcut := cutBy_cut c cs
  generalize cut c cs = r at hcut ⊢
  cases hcut with
  | blank | mark | unexpected => rfl
  | directive | lineComment => exact throughLineBreak_append cs
  | comment => exact cutComment_append cs
  | string => exact cutQuoted_append c .openString cs
  | character => exact cutQuoted_append c .openCharacter cs
  | number => exact restOfNumber_append cs
  | word => exact restOfWord_append cs
  | operator => exact restOfOperator_append c cs

/-- What a cut leaves is no longer than what it was given. -/
theorem length_cut_le (c : Char) (cs : List Char) : (cut c cs).2.2.length ≤ cs.length := by
  have h := congrArg List.length (cut_append c cs)
  rw [List.length_append] at h
  omega

/-! ## The pieces of a text -/

/-- A text cut into pieces from left to right. -/
def pieces : List Char → List Piece
  | [] => []
  | c :: cs =>
    let found := cut c cs
    ⟨found.1, c :: found.2.1⟩ :: pieces found.2.2
termination_by cs => cs.length
decreasing_by exact Nat.lt_succ_of_le (length_cut_le c cs)

@[simp] theorem pieces_nil : pieces [] = [] := by
  rw [pieces]

theorem pieces_cons (c : Char) (cs : List Char) :
    pieces (c :: cs) = ⟨(cut c cs).1, c :: (cut c cs).2.1⟩ :: pieces (cut c cs).2.2 := by
  rw [pieces]

/-- What holds of the empty text, and of a text when it holds of what stands behind the first piece, holds of every text. -/
theorem pieces_induction {P : List Char → Prop} (nil : P []) (cons : ∀ c cs, P (cut c cs).2.2 → P (c :: cs))
    (cs : List Char) : P cs := by
  fun_induction pieces cs with
  | case1 => exact nil
  | case2 c cs found ih => exact cons c cs ih

/-- The pieces of a text, put end to end, are the text. -/
theorem flatten_pieces (cs : List Char) : (pieces cs).flatMap (·.text) = cs := by
  fun_induction pieces cs with
  | case1 => rfl
  | case2 c cs found ih => rw [List.flatMap_cons, ih, List.cons_append, cut_append]

/-- No piece is empty. -/
theorem text_ne_nil {cs : List Char} {p : Piece} (hp : p ∈ pieces cs) : p.text ≠ [] := by
  fun_induction pieces cs with
  | case1 => simp at hp
  | case2 c cs found ih =>
    rcases List.mem_cons.mp hp with rfl | hp
    · simp
    · exact ih hp

end Piece

end LoopForest
