/-!
# Edit distance

The least number of insertions, deletions and substitutions of single characters that turn one text
into another. The computation keeps one row of the usual table: the distances from a prefix of the
first text to every prefix of the second.
-/

namespace Conditions.Text

/-- The rest of the row that follows the cell `left`, for a prefix that ends in `c`. The arguments
`corner` and `above` are the cells of the row before, `corner` the one over `left`. -/
def fillRow (c : Char) (corner left : Nat) : List Char → List Nat → List Nat
  | d :: ds, above :: cells =>
    let cell := min (min (above + 1) (left + 1)) (corner + if c = d then 0 else 1)
    cell :: fillRow c above cell ds cells
  | _, _ => []

/-- The row of a prefix with one more character `c`, from the row of that prefix. -/
def nextRow (b : List Char) (row : List Nat) (c : Char) : List Nat :=
  match row with
  | [] => []
  | corner :: cells => (corner + 1) :: fillRow c corner (corner + 1) b cells

/-- The distances from `a` to every prefix of `b`, the shortest prefix first. -/
def distanceRow (a b : List Char) : List Nat :=
  a.foldl (nextRow b) (List.range (b.length + 1))

/-- The edit distance of `a` from `b`, in rows along `b`. Nothing but deletions leads to a text
without characters. -/
def distanceAlong (a b : List Char) : Nat :=
  if b.isEmpty then a.length else (distanceRow a b).getLastD 0

/-- The edit distance between two texts. The rows run along the shorter one. -/
def editDistance (a b : String) : Nat :=
  if a.length < b.length then distanceAlong b.toList a.toList else distanceAlong a.toList b.toList

end Conditions.Text
