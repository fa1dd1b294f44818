import RegionGossip.Binary64.Shortest
import RegionGossip.Text.Numeral

/-!
# Doubles as text

Every written form of a double uses the fewest digits that read back. The forms differ only in the
decisions that a layout records: which sizes are written without an exponent, whether a whole
number shows a point, and how the exponent looks.
-/

namespace RegionGossip.Binary64

/-- The decisions of one written form of doubles. -/
structure Layout where
  /-- Where a tie between two shortest numerals goes. -/
  tie : Tie
  /-- The least decimal exponent that is written positionally, if small numbers have an exponent. -/
  positionalFrom : Option Int
  /-- The least decimal exponent that is too large for positional digits, if there is one. -/
  positionalBelow : Option Int
  /-- Whether a whole number in positional digits ends in a point and a zero. -/
  showsPoint : Bool
  /-- The sign before a positive exponent. -/
  positiveExponent : ExponentSign

/-- Messages write all digits in place and show no point after a whole number. -/
def Layout.message : Layout := ⟨.up, none, none, false, .plain⟩

/-- Listings of values use an exponent outside `1e-4 ≤ x < 1e16`, and always show a point inside. -/
def Layout.listing : Layout := ⟨.up, some (-4), some 16, true, .plain⟩

/-- The verbose wire form uses an exponent, with its sign, outside `1e-5 ≤ x < 1e16`. -/
def Layout.wire : Layout := ⟨.toEven, some (-5), some 16, true, .plus⟩

/-- Whether a number of this decimal exponent is written positionally. -/
def Layout.isPositional (layout : Layout) (exponent : Int) : Bool :=
  (match layout.positionalFrom with
    | some least => least ≤ exponent
    | none => true) &&
  (match layout.positionalBelow with
    | some bound => exponent < bound
    | none => true)

/-- The point and the digits after it; a whole number may go without. -/
def Layout.fraction (layout : Layout) : List Char → Option (List Char)
  | [] => if layout.showsPoint then some ['0'] else none
  | digits => some digits

/-- All digits written in place. -/
def Layout.positional (layout : Layout) (negative : Bool) (digits : List Char) (exponent : Int) :
    Numeral :=
  if 0 ≤ exponent then
    ⟨negative, digits ++ List.replicate exponent.toNat '0', layout.fraction [], none⟩
  else
    let after := exponent.natAbs
    if after < digits.length then
      ⟨negative, digits.take (digits.length - after),
        layout.fraction (digits.drop (digits.length - after)), none⟩
    else ⟨negative, ['0'], some (List.replicate (after - digits.length) '0' ++ digits), none⟩

/-- One digit before the point, and an exponent. -/
def Layout.scientific (layout : Layout) (negative : Bool) (digits : List Char) (exponent : Int) :
    Numeral :=
  { negative
    whole := digits.take 1
    fraction := if digits.length ≤ 1 then none else some (digits.drop 1)
    exponent := some ⟨if exponent < 0 then .minus else layout.positiveExponent,
      Decimal.digits exponent.natAbs⟩ }

/-- The numeral of a finite double. -/
def Layout.numeral (layout : Layout) (x : Binary64) : Numeral :=
  if x.isZero then ⟨x.isNegative, ['0'], layout.fraction [], none⟩
  else
    let point := shortest layout.tie x
    let digits := Decimal.digits point.count
    let exponent := point.exponent + digits.length - 1
    if layout.isPositional exponent then layout.positional x.isNegative digits point.exponent
    else layout.scientific x.isNegative digits exponent

/-- The text of any double. -/
def text (layout : Layout) (x : Binary64) : String :=
  if x.isNaN then "NaN"
  else if x.isInfinite then (if x.isNegative then "-inf" else "inf")
  else String.ofList (layout.numeral x).chars

end RegionGossip.Binary64
