/-!
# Hexadecimal numerals
-/

namespace Conditions.Text

/-- The lower-case hexadecimal digits of `n`, with zeros in front up to `width` digits. -/
def hexDigits (width n : Nat) : List Char :=
  let digits := Nat.toDigits 16 n
  List.replicate (width - digits.length) '0' ++ digits

end Conditions.Text
