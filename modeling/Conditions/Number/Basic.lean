import Conditions.Number.Integer
import Conditions.Number.Shortest

/-!
# Numbers

A number is a whole number of any size or a binary64 number. Numbers are compared by the value they
stand for, so a whole number may equal a binary one, and the two zeros are equal. What is not a
number stands for no value, and equals nothing.
-/

namespace Conditions

/-- The point of the extended number line that a number stands for. -/
inductive ExactValue where
  /-- A multiple of a power of two. -/
  | finite (value : Dyadic)
  /-- An infinity. -/
  | infinite (negative : Bool)
  deriving DecidableEq

/-- The value of a binary64 number, if it has one. -/
def Binary64.value? : Binary64 → Option ExactValue
  | finite negative mantissa exponent =>
    some (.finite (Dyadic.ofIntWithPrec (if negative then -mantissa else mantissa) (-exponent)))
  | infinite negative => some (.infinite negative)
  | nan => none

/-- Whether two values are there and equal. -/
def sameValue : Option ExactValue → Option ExactValue → Bool
  | some v, some v' => v == v'
  | _, _ => false

@[simp] theorem sameValue_none (v : Option ExactValue) : sameValue v none = false := by
  cases v <;> rfl

/-- A number: a whole number or a binary64 number. -/
inductive Number where
  /-- A whole number. -/
  | integer (n : Int)
  /-- A binary64 number. -/
  | real (x : Binary64)
  deriving DecidableEq, Repr

namespace Number

/-- The value that a number stands for, if it stands for one. -/
def value? : Number → Option ExactValue
  | integer n => some (.finite (Dyadic.ofInt n))
  | real x => x.value?

/-- Whether two numbers stand for the same value. -/
def same (x y : Number) : Bool :=
  sameValue x.value? y.value?

end Number

/-- How decimals are laid out. -/
structure DecimalLayout where
  /-- The least exponent of the first digit for which the decimal is written out. -/
  leastPositional : Int
  /-- The least exponent of the first digit for which it has an exponent again. -/
  leastScientific : Int
  /-- The least number of digits of a written exponent. -/
  exponentWidth : Nat

/-- Decimals are written out from `0.0001` up to sixteen digits before the point; an exponent has
at least two digits. -/
def realLayout : DecimalLayout := ⟨-4, 16, 2⟩

/-- The text of a positive decimal. A decimal that is written out has a fraction, if only a zero. -/
def Decimal.layOut (layout : DecimalLayout) (x : Decimal) : List Char :=
  let digits := decimalDigits x.digits
  let first := x.exponent + digits.length - 1
  if first < layout.leastPositional || layout.leastScientific ≤ first then
    let fraction := if digits.length = 1 then [] else '.' :: digits.drop 1
    let sign := if first < 0 then '-' else '+'
    let exponent := decimalDigits first.natAbs
    digits.take 1 ++ fraction ++
      'e' :: sign :: List.replicate (layout.exponentWidth - exponent.length) '0' ++ exponent
  else if first < 0 then
    '0' :: '.' :: List.replicate (-first - 1).toNat '0' ++ digits
  else
    let whole := first.toNat + 1
    let zeros := List.replicate (whole - digits.length) '0'
    let fraction := if digits.length ≤ whole then ['0'] else digits.drop whole
    digits.take whole ++ zeros ++ '.' :: fraction

/-- The text of a binary64 number: the shortest decimal that rounds to it. -/
def Binary64.text (x : Binary64) : String :=
  let signed (negative : Bool) (cs : List Char) := String.ofList (if negative then '-' :: cs else cs)
  match x with
  | nan => "nan"
  | infinite negative => signed negative ['i', 'n', 'f']
  | finite negative mantissa exponent =>
    if mantissa = 0 then signed negative ['0', '.', '0']
    else signed negative ((shortest mantissa exponent).layOut realLayout)

/-- The text of a number. -/
def Number.text : Number → Except UnwritableNumber String
  | integer n => integerText n
  | real x => .ok x.text

/-- Reads the text of a binary64 number: digits, with a fraction or an exponent or both, or the
name of infinity or of what is not a number. -/
def Binary64.ofText? (s : String) : Option Binary64 :=
  let (negative, cs) := match s.toList with
    | '-' :: cs => (true, cs)
    | cs => (false, cs)
  if cs = ['n', 'a', 'n'] then some .nan
  else if cs = ['i', 'n', 'f'] then some (.infinite negative)
  else
    let whole := cs.takeWhile Char.isDigit
    let (fraction, cs) := match cs.dropWhile Char.isDigit with
      | '.' :: cs => (cs.takeWhile Char.isDigit, cs.dropWhile Char.isDigit)
      | cs => ([], cs)
    let exponent? : Option Int := match cs with
      | [] => some 0
      | 'e' :: '-' :: cs => if cs.all Char.isDigit then some (-(digitsValue cs : Int)) else none
      | 'e' :: '+' :: cs => if cs.all Char.isDigit then some (digitsValue cs) else none
      | 'e' :: cs => if cs.all Char.isDigit then some (digitsValue cs) else none
      | _ => none
    if whole.isEmpty then none
    else exponent?.map fun exponent =>
      ofDecimal negative (digitsValue (whole ++ fraction)) (exponent - fraction.length)

end Conditions
