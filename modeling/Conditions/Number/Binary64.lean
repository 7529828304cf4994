/-!
# Binary floating-point numbers

The numbers of the IEEE 754 binary64 format as exact integers: a sign, a mantissa below `2^53` and a
power of two. Decimal literals are rounded to the nearest of them, a tie going to the even mantissa;
what is too large for the format becomes infinite. The format also has what is not a number, which no
literal is rounded to.
-/

namespace Conditions

/-- A binary64 number. -/
inductive Binary64 where
  /-- The number `mantissa * 2^exponent` with a sign, which zero has too. The exponent is the least
  one of the format, or else the mantissa is at least `2^52`. -/
  | finite (negative : Bool) (mantissa : Nat) (exponent : Int)
  /-- An infinity. -/
  | infinite (negative : Bool)
  /-- Not a number. -/
  | nan
  deriving DecidableEq, Repr

namespace Binary64

/-- The power of the base with the given exponent; one if the exponent is negative. -/
def power (base : Nat) (exponent : Int) : Nat :=
  Nat.pow base exponent.toNat

/-- The least mantissa of the numbers whose exponent is not the least one: `2^52`. -/
def leastNormal : Nat := power 2 52

/-- The bound of all mantissas: `2^53`. -/
def mantissaBound : Nat := power 2 53

/-- The exponent of the smallest numbers. -/
def leastExponent : Int := -1074

/-- The exponent of the greatest finite numbers. -/
def greatestExponent : Int := 971

/-- The whole number nearest to `num / den`, the even one of two that are equally near. -/
def roundedQuotient (num den : Nat) : Nat :=
  let quotient := num / den
  match compare (2 * (num % den)) den with
  | .lt => quotient
  | .gt => quotient + 1
  | .eq => if quotient % 2 = 0 then quotient else quotient + 1

/-- The number with this mantissa and exponent, or infinity if the exponent is too great. -/
def bounded (negative : Bool) (mantissa : Nat) (exponent : Int) : Binary64 :=
  if exponent ≤ greatestExponent then .finite negative mantissa exponent else .infinite negative

/-- The number nearest to `num / den`. -/
def nearest (negative : Bool) (num den : Nat) : Binary64 :=
  if num = 0 then .finite negative 0 leastExponent
  else
    let scaled (exponent : Int) : Nat × Nat := (num * power 2 (-exponent), den * power 2 exponent)
    -- The quotient lies between `2^52` and `2^54` times two to this power.
    let estimate := max leastExponent ((num.log2 : Int) - den.log2 - 53)
    let (num₁, den₁) := scaled estimate
    let exponent := if num₁ / den₁ < mantissaBound then estimate else estimate + 1
    let (num₂, den₂) := scaled exponent
    let mantissa := roundedQuotient num₂ den₂
    if mantissa < mantissaBound then bounded negative mantissa exponent
    else bounded negative leastNormal (exponent + 1)

/-- The number nearest to `digits * 10^exponent`. -/
def ofDecimal (negative : Bool) (digits : Nat) (exponent : Int) : Binary64 :=
  nearest negative (digits * power 10 exponent) (power 10 (-exponent))

end Binary64

end Conditions
