import RegionGossip.Binary64.Arith
import RegionGossip.Json.Basic

/-!
# The value of a JSON number

A numeral that is a row of digits is an integer where sixty-four bits hold it. Every other numeral
is a double, computed in two roundings: the digits are gathered in an unsigned word of sixty-four
bits, further digits only shift the point, and the word is then multiplied or divided by a power of
ten. The result is exact for short numerals and may be a few units off for long ones. A numeral whose
value is too large for a double has no value.
-/

namespace RegionGossip.Json

/-- What a numeral stands for. -/
inductive NumberValue
  | natural (n : Nat)
  | negative (n : Int)
  | float (x : Binary64)
  deriving DecidableEq, Repr

/-- The largest unsigned word. -/
def maxWord : Nat := 0xffffffffffffffff

/-- The largest exponent that is counted. -/
def maxExponent : Int := 0x7fffffff

/-- Gathers digits in a word for as long as they fit; gives the word, how many digits were taken,
and the digits that were left. -/
def gather : List Char → (word taken : Nat) → Nat × Nat × List Char
  | [], word, taken => (word, taken, [])
  | c :: rest, word, taken =>
    let next := 10 * word + (c.toNat - '0'.toNat)
    if next ≤ maxWord then gather rest next (taken + 1) else (word, taken, c :: rest)

/-- The power of ten that divides or multiplies a word in one step. -/
def tenTo (exponent : Nat) : Binary64 := Binary64.ofDecimal false 1 exponent

/-- A word times a power of ten. Exponents beyond the range of doubles are worked off in steps of
308; a result that is too large is none. -/
def scaleWord : (fuel : Nat) → Binary64 → Int → Option Binary64
  | 0, x, _ => some x
  | fuel + 1, x, exponent =>
    if exponent.natAbs ≤ 308 then
      if 0 ≤ exponent then
        let scaled := x * tenTo exponent.natAbs
        if scaled.isInfinite then none else some scaled
      else some (x / tenTo exponent.natAbs)
    else if x.isZero then some x
    else if 0 ≤ exponent then none
    else scaleWord fuel (x / tenTo 308) (exponent + 308)

/-- The double of a word and an exponent. Three steps of 308 bring any word down to zero. -/
def doubleOf (negative : Bool) (word : Nat) (exponent : Int) : Option Binary64 :=
  (scaleWord 8 (Binary64.ofInt word) exponent).map fun x => if negative then x.negate else x

/-- The number of an exponent's digits, unless it is larger than exponents are counted. -/
def exponentSize (digits : List Char) : Option Int :=
  let size : Int := Decimal.value digits
  if size ≤ maxExponent then some size else none

/-- The written exponent applied to the exponent that comes from the position of the point. -/
def applyExponent (negative : Bool) (word : Nat) (start : Int) : Option ExponentPart →
    Option Binary64
  | none => doubleOf negative word start
  | some part =>
    let shrinks := part.sign == .minus
    match exponentSize part.digits with
    | some size =>
      let total := if shrinks then start - size else start + size
      doubleOf negative word (max (-maxExponent - 1) (min maxExponent total))
    | none =>
      if word ≠ 0 && !shrinks then none else some (Binary64.signedZero negative)

/-- The double that a numeral is read as. -/
def readDouble (numeral : Numeral) : Option Binary64 :=
  let (whole, _, dropped) := gather numeral.whole 0 0
  let (word, shift, _) := gather (numeral.fraction.getD []) whole 0
  applyExponent numeral.negative word ((dropped.length : Int) - shift) numeral.exponent

/-- The value of a numeral. -/
def readNumber (numeral : Numeral) : Option NumberValue :=
  let n := Decimal.value numeral.whole
  if numeral.isWhole && n ≤ maxWord then
    if !numeral.negative then some (.natural n)
    else if n = 0 then some (.float (Binary64.signedZero true))
    else if n ≤ 0x8000000000000000 then some (.negative (-(n : Int)))
    else some (.float (Binary64.ofInt n).negate)
  else (readDouble numeral).map .float

/-- A numeral as a signed word; only integers within its range are. -/
def readInt64 (numeral : Numeral) : Option Int64 :=
  match readNumber numeral with
  | some (.natural n) => if n < 0x8000000000000000 then some (Int64.ofNat n) else none
  | some (.negative n) => some (Int64.ofInt n)
  | _ => none

/-- A numeral as a port number. -/
def readPort (numeral : Numeral) : Option UInt16 :=
  match readNumber numeral with
  | some (.natural n) => if n < 0x10000 then some (UInt16.ofNat n) else none
  | _ => none

/-- A numeral as a double; an integer goes to the nearest one. -/
def readFloat (numeral : Numeral) : Option Binary64 :=
  match readNumber numeral with
  | some (.natural n) => some (Binary64.ofInt n)
  | some (.negative n) => some (Binary64.ofInt n)
  | some (.float x) => some x
  | none => none

end RegionGossip.Json
