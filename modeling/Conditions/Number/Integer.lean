import Conditions.Number.Digits

/-!
# Reading and writing whole numbers

A whole number is read from its decimal digits and its sign, and written with them. The effort grows
faster than the number of digits, which is therefore limited both ways.
-/

namespace Conditions

/-- The most digits a whole number may have. -/
def digitLimit : Nat := 4300

/-- A whole number with more digits than can be converted. -/
structure OversizedNumber where
  digits : Nat
  deriving DecidableEq, Repr

/-- The words for a number that is too large. -/
def OversizedNumber.message (e : OversizedNumber) : String :=
  let limit := digitLimit
  let digits := e.digits
  s!"Exceeds the limit ({limit} digits) for integer string conversion: value has {digits} digits" ++
    "; use sys.set_int_max_str_digits() to increase the limit"

/-- The whole number with the given sign and digits. Leading zeros count as digits. -/
def readInteger (negative : Bool) (digits : List Char) : Except OversizedNumber Int :=
  if digitLimit < digits.length then .error ⟨digits.length⟩
  else .ok (if negative then -(digitsValue digits : Int) else digitsValue digits)

/-- Reads the text of a whole number: digits, perhaps behind a minus sign. -/
def integerOfText? (s : String) : Option (Except OversizedNumber Int) :=
  let (negative, digits) := match s.toList with
    | '-' :: cs => (true, cs)
    | cs => (false, cs)
  if digits.isEmpty || !digits.all Char.isDigit then none else some (readInteger negative digits)

/-- A whole number with more digits than can be written. -/
structure UnwritableNumber where
  deriving DecidableEq, Repr

/-- The words for a number that is too large to be written. -/
def UnwritableNumber.message (_ : UnwritableNumber) : String :=
  let limit := digitLimit
  s!"Exceeds the limit ({limit} digits) for integer string conversion" ++
    "; use sys.set_int_max_str_digits() to increase the limit"

/-- The decimal numeral of a whole number. The sign does not count as a digit. -/
def integerText (n : Int) : Except UnwritableNumber String :=
  let digits := decimalDigits n.natAbs
  if digitLimit < digits.length then .error ⟨⟩
  else .ok (String.ofList (if n < 0 then '-' :: digits else digits))

end Conditions
