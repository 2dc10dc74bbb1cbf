/-!
# Places in a text

A place is a line and a column, both counted from one. Columns count characters, not bytes, so a character outside the basic
alphabet moves the place by one column like any other. The place after a stretch of text is found by walking over it, one
character at a time (`Location.after`), and walking over two stretches one after the other is walking over both
(`Location.after_append`).
-/

namespace LoopForest

/-- A line and a column of a text. The default, line zero and column zero, lies before every text: it is the place of what no
text shows. -/
structure Location where
  line : Nat
  column : Nat
  deriving DecidableEq, Repr, Inhabited

namespace Location

/-- Where every text begins. -/
def start : Location := ⟨1, 1⟩

/-- The place behind one character: a line break opens the next line, any other character takes one column. -/
def advance (l : Location) (c : Char) : Location :=
  if c = '\n' then ⟨l.line + 1, 1⟩ else ⟨l.line, l.column + 1⟩

/-- The place behind a stretch of text that begins at `l`. -/
def after (l : Location) (text : List Char) : Location := text.foldl advance l

/-- A place in words. -/
def describe (l : Location) : String :=
  "line " ++ toString l.line ++ ", column " ++ toString l.column

@[simp] theorem after_nil (l : Location) : l.after [] = l := rfl

@[simp] theorem after_cons (l : Location) (c : Char) (text : List Char) :
    l.after (c :: text) = (l.advance c).after text := rfl

/-- Walking over two stretches is walking over the first and then over the second. -/
theorem after_append (l : Location) (s t : List Char) : l.after (s ++ t) = (l.after s).after t :=
  List.foldl_append

end Location

end LoopForest
