import RegionGossip.Binary64.Round
import RegionGossip.Text.Numeral

/-!
# Doubles from numerals

The double nearest to a written number. Numerals whose exponent takes them far out of the range of
doubles are infinite or zero, and are recognised before any large power of ten is computed.
-/

namespace RegionGossip.Binary64

/-- The exponent that a numeral's exponent part stands for. -/
def exponentOf : Option ExponentPart → Int
  | none => 0
  | some part =>
    let size : Int := Decimal.value part.digits
    if part.sign = .minus then -size else size

/-- The double nearest to a numeral. -/
def ofNumeral (numeral : Numeral) : Binary64 :=
  let fraction := numeral.fraction.getD []
  let count := Decimal.value (numeral.whole ++ fraction)
  let exponent := exponentOf numeral.exponent - fraction.length
  let size : Int := numeral.whole.length + fraction.length
  if count = 0 then signedZero numeral.negative
  else if 400 < exponent then infinity numeral.negative
  else if exponent + size < -400 then signedZero numeral.negative
  else ofDecimal numeral.negative count exponent

end RegionGossip.Binary64
