import RegionGossip.Text.Decimal

/-!
# Numerals with a point and an exponent

The parts of a written number: a sign, whole digits, digits after the point, and a power of ten.
Printing and reading of numbers meet at these parts, so that a format only decides which parts to
use.
-/

namespace RegionGossip

/-- How the sign of an exponent is written. -/
inductive ExponentSign
  | plain
  | plus
  | minus
  deriving DecidableEq, Repr

/-- The exponent part of a numeral. -/
structure ExponentPart where
  sign : ExponentSign
  digits : List Char
  deriving DecidableEq, Repr

/-- The parts of a written number. -/
structure Numeral where
  negative : Bool
  whole : List Char
  fraction : Option (List Char)
  exponent : Option ExponentPart
  deriving DecidableEq, Repr

/-- The written sign of an exponent. -/
def ExponentSign.chars : ExponentSign → List Char
  | .plain => []
  | .plus => ['+']
  | .minus => ['-']

namespace Numeral

/-- The characters of a numeral, with a small letter before the exponent. -/
def chars (numeral : Numeral) : List Char :=
  (if numeral.negative then ['-'] else []) ++ numeral.whole ++
    (match numeral.fraction with
      | some digits => '.' :: digits
      | none => []) ++
    (match numeral.exponent with
      | some part => 'e' :: (part.sign.chars ++ part.digits)
      | none => [])

/-- The numeral of an integer. -/
def ofInt (n : Int) : Numeral := ⟨n < 0, Decimal.digits n.natAbs, none, none⟩

/-- Whether a numeral is a row of digits with at most a sign. -/
def isWhole (numeral : Numeral) : Bool := numeral.fraction.isNone && numeral.exponent.isNone

end Numeral

end RegionGossip
