import Conditions.Number.Integer

/-!
# Places in a source text

A position counts characters: the offset from the start of the text, and the line and the column,
which begin at one. A location is a position in a named source.
-/

namespace Conditions

/-- A position in a text. -/
structure Position where
  offset : Int
  line : Int
  column : Int
  deriving DecidableEq, Repr

namespace Position

/-- The start of a text. -/
def start : Position := ⟨0, 1, 1⟩

/-- The position behind the character `c`, which stands at `p`. Only a line feed begins a line. -/
def advance (p : Position) (c : Char) : Position :=
  if c = '\n' then ⟨p.offset + 1, p.line + 1, 1⟩ else ⟨p.offset + 1, p.line, p.column + 1⟩

/-- The position behind the text `cs`, which begins at `p`. -/
def after (p : Position) (cs : List Char) : Position :=
  cs.foldl advance p

@[simp] theorem after_nil (p : Position) : p.after [] = p := rfl

@[simp] theorem after_cons (p : Position) (c : Char) (cs : List Char) :
    p.after (c :: cs) = (p.advance c).after cs := rfl

@[simp] theorem after_append (p : Position) (cs ds : List Char) :
    p.after (cs ++ ds) = (p.after cs).after ds := by
  simp [after]

end Position

/-- A position in a named source. -/
structure Location extends Position where
  filename : String
  deriving DecidableEq, Repr

/-- The location of a position in the named source. -/
def Position.locate (p : Position) (filename : String) : Location :=
  { p with filename := filename }

/-- The text of a location. -/
def Location.text (l : Location) : Except UnwritableNumber String := do
  let filename := l.filename
  let line ← integerText l.line
  let column ← integerText l.column
  return s!"{filename}:{line}:{column}"

end Conditions
