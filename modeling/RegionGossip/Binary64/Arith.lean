import RegionGossip.Binary64.Round

/-!
# Arithmetic on doubles

A sum, product or quotient is the double nearest to the exact result. The cases that have no exact
result, or a zero or infinite one, follow the rules of the format for signs and undefined results.
-/

namespace RegionGossip.Binary64

/-- A finite number as a whole count of units of a power of two. -/
def countAt (x : Binary64) (unit : Int) : Int :=
  let size : Int := (x.significand : Int) * (Nat.pow 2 (x.place - unit).toNat : Nat)
  if x.isNegative then -size else size

/-- The sum of two numbers. A sum of opposite numbers is positive zero. -/
def add (x y : Binary64) : Binary64 :=
  if x.isNaN || y.isNaN then undefined
  else if x.isInfinite then
    if y.isInfinite && x.isNegative != y.isNegative then undefined else x
  else if y.isInfinite then y
  else
    let unit := min x.place y.place
    let total := x.countAt unit + y.countAt unit
    if total = 0 then signedZero (x.isNegative && y.isNegative)
    else ofScaled (total < 0) total.natAbs unit

/-- The product of two numbers. -/
def mul (x y : Binary64) : Binary64 :=
  let negative := x.isNegative != y.isNegative
  if x.isNaN || y.isNaN then undefined
  else if x.isInfinite || y.isInfinite then
    if x.isZero || y.isZero then undefined else infinity negative
  else ofScaled negative (x.significand * y.significand) (x.place + y.place)

/-- The quotient of two numbers. A finite number over zero is infinite, zero over zero undefined. -/
def div (x y : Binary64) : Binary64 :=
  let negative := x.isNegative != y.isNegative
  if x.isNaN || y.isNaN then undefined
  else if x.isInfinite then
    if y.isInfinite then undefined else infinity negative
  else if y.isInfinite then signedZero negative
  else if y.isZero then
    if x.isZero then undefined else infinity negative
  else
    let unit := x.place - y.place
    ofFraction negative (x.significand * Nat.pow 2 unit.toNat)
      (y.significand * Nat.pow 2 (-unit).toNat)

instance : Add Binary64 := ⟨add⟩

instance : Mul Binary64 := ⟨mul⟩

instance : Div Binary64 := ⟨div⟩

end RegionGossip.Binary64
