import RegionGossip.Binary64.Basic

/-!
# Rounding to the nearest double

A positive rational number is rounded to the nearest binary64 number. The number is first brought
to a whole count of units of its last place; of two numbers at the same distance the one with the
even count is taken, and what is too large becomes infinite.
-/

namespace RegionGossip.Binary64

/-- The whole number nearest to a quotient; a half goes to the even neighbour. -/
def roundHalfEven (num den : Nat) : Nat :=
  let down := num / den
  let left := num % den
  if 2 * left < den then down
  else if den < 2 * left then down + 1
  else if down % 2 = 0 then down else down + 1

/-- The numerator of a fraction that is measured in units of a power of two. -/
def scaledNumerator (num : Nat) (unit : Int) : Nat := num * Nat.pow 2 (-unit).toNat

/-- The denominator of a fraction that is measured in units of a power of two. -/
def scaledDenominator (den : Nat) (unit : Int) : Nat := den * Nat.pow 2 unit.toNat

/-- The last place of the double nearest to a positive fraction: the place at which fifty-three
binary digits stand before the point, but never below the place of the smallest numbers. -/
def roundingPlace (num den : Nat) : Int :=
  let guess : Int := (num.log2 : Int) - (den.log2 : Int) - 53
  let enough := 0x20000000000000 * scaledDenominator den guess ≤ scaledNumerator num guess
  max leastPlace (if enough then guess + 1 else guess)

/-- The double nearest to a fraction with the given sign. -/
def ofFraction (negative : Bool) (num den : Nat) : Binary64 :=
  if num = 0 then signedZero negative
  else
    let unit := roundingPlace num den
    let count := roundHalfEven (scaledNumerator num unit) (scaledDenominator den unit)
    let size := (unit - leastPlace).toNat * fractionRange + count
    if size < specialExponent * fractionRange then ofSize negative size else infinity negative

/-- The double nearest to a whole number of units of a power of two. -/
def ofScaled (negative : Bool) (count : Nat) (unit : Int) : Binary64 :=
  ofFraction negative (count * Nat.pow 2 unit.toNat) (Nat.pow 2 (-unit).toNat)

/-- The double nearest to an integer. -/
def ofInt (n : Int) : Binary64 := ofFraction (n < 0) n.natAbs 1

/-- The double nearest to a decimal number. -/
def ofDecimal (negative : Bool) (digits : Nat) (exponent : Int) : Binary64 :=
  ofFraction negative (digits * Nat.pow 10 exponent.toNat) (Nat.pow 10 (-exponent).toNat)

end RegionGossip.Binary64
