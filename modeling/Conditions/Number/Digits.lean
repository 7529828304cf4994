/-!
# Decimal digits
-/

namespace Conditions

/-- The number that a run of decimal digits denotes. -/
def digitsValue (digits : List Char) : Nat :=
  digits.foldl (fun value d => 10 * value + (d.toNat - '0'.toNat)) 0

/-- The decimal digits of a number, without leading zeros. -/
def decimalDigits (n : Nat) : List Char :=
  Nat.toDigits 10 n

end Conditions
