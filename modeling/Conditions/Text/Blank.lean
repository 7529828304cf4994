import Conditions.Text.Ranges

/-!
# Blank characters

The white space that may stand between lexemes: the ASCII separators and the Unicode spaces.
-/

namespace Conditions.Text

/-- The code points of the blank characters. -/
def blankRanges : List (Nat × Nat) :=
  [(0x09, 0x0D), (0x1C, 0x20), (0x85, 0x85), (0xA0, 0xA0), (0x1680, 0x1680), (0x2000, 0x200A),
    (0x2028, 0x2029), (0x202F, 0x202F), (0x205F, 0x205F), (0x3000, 0x3000)]

/-- Whether the character is white space. -/
def isBlank (c : Char) : Bool :=
  inRanges c.toNat blankRanges

end Conditions.Text
