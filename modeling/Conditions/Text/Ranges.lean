/-!
# Membership in a table of ranges

Properties of characters are given as tables of code point ranges. `inRanges` looks a code point up
in such a table.
-/

namespace Conditions.Text

/-- Whether `n` lies in one of the inclusive ranges. The ranges are listed in increasing order, so
the search ends at the first range that begins beyond `n`. -/
def inRanges (n : Nat) : List (Nat × Nat) → Bool
  | [] => false
  | (first, last) :: rest =>
    if n < first then false else if n ≤ last then true else inRanges n rest

end Conditions.Text
