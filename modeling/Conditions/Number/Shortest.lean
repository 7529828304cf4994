import Conditions.Number.Binary64

/-!
# Shortest decimals

The decimal with the fewest digits among those that round to a given binary number, and of these the
one nearest to it. All comparisons are between whole numbers, so they are exact.
-/

namespace Conditions

/-- The positive decimal `digits * 10^exponent`. -/
structure Decimal where
  digits : Nat
  exponent : Int
  deriving DecidableEq, Repr

namespace Binary64

/-- Whole numbers in the same order as `d * 10^e` and `n * 2^p`. -/
def commonScale (d : Nat) (e : Int) (n : Nat) (p : Int) : Nat × Nat :=
  (d * power 10 e * power 2 (-p), n * power 2 p * power 10 (-e))

/-- Whether `d * 10^e` rounds to `m * 2^q`. The numbers that do so reach half a step up and down,
but only a quarter down from a power of two; the ends belong to an even mantissa. -/
def roundsTo (m : Nat) (q : Int) (d : Nat) (e : Int) : Bool :=
  let low := if m = leastNormal && leastExponent < q then 4 * m - 1 else 4 * m - 2
  let (x, a) := commonScale d e low (q - 2)
  let (_, b) := commonScale d e (4 * m + 2) (q - 2)
  if m % 2 = 0 then a ≤ x && x ≤ b else a < x && x < b

/-- The multiple of `10^e` nearest to `m * 2^q` among those that round to it. Only the two next to
it need to be tried; an even one wins a tie. -/
def nearestMultiple? (m : Nat) (q e : Int) : Option Nat :=
  let d := m * power 2 q * power 10 (-e) / (power 2 (-q) * power 10 e)
  match roundsTo m q d e, roundsTo m q (d + 1) e with
  | false, false => none
  | true, false => some d
  | false, true => some (d + 1)
  | true, true =>
    let (middle, value) := commonScale (2 * d + 1) e (2 * m) q
    match compare value middle with
    | .lt => some d
    | .gt => some (d + 1)
    | .eq => if d % 2 = 0 then some d else some (d + 1)

/-- Tries the powers of ten from `10^e` downwards, at most `steps` of them. -/
def shortestFrom (m : Nat) (q : Int) : (steps : Nat) → (e : Int) → Decimal
  | 0, e => ⟨m, e⟩
  | steps + 1, e =>
    match nearestMultiple? m q e with
    | some d => ⟨d, e⟩
    | none => shortestFrom m q steps (e - 1)

/-- The shortest decimal that rounds to `m * 2^q`, for positive `m`. The search begins above the
number and ends at the latest where the number itself is a multiple of the power of ten. -/
def shortest (m : Nat) (q : Int) : Decimal :=
  -- An upper bound of the logarithm: 0.30103 exceeds the decimal logarithm of two.
  let top := ((m.log2 + q + 1) * 30103) / 100000 + 1
  shortestFrom m q ((top - min q 0).toNat + 1) top

end Binary64

end Conditions
