/-!
# Double precision numbers

A number of the binary64 format is its 64 bits: a sign, eleven bits of exponent and fifty-two bits
of fraction. Every question about a number is answered from these bits with integers of unlimited
size, so each rule holds for all inputs and none is left to a processor.
-/

namespace RegionGossip

/-- A binary64 number, held as its bits. -/
structure Binary64 where
  bits : UInt64
  deriving DecidableEq, Repr, Inhabited

namespace Binary64

/-- One more than the largest fraction. -/
def fractionRange : Nat := 0x10000000000000

/-- The exponent field that marks infinities and numbers that are undefined. -/
def specialExponent : Nat := 2047

/-- The exponent of the last place of the smallest numbers. -/
def leastPlace : Int := -1074

/-- The sign bit. -/
def isNegative (x : Binary64) : Bool := 0x8000000000000000 ≤ x.bits.toNat

/-- The exponent field. -/
def exponentField (x : Binary64) : Nat := x.bits.toNat / fractionRange % 2048

/-- The fraction field. -/
def fractionField (x : Binary64) : Nat := x.bits.toNat % fractionRange

/-- Neither infinite nor undefined. -/
def isFinite (x : Binary64) : Bool := x.exponentField < specialExponent

/-- Undefined, in any of its bit patterns. -/
def isNaN (x : Binary64) : Bool := x.exponentField == specialExponent && x.fractionField != 0

/-- Infinite, of either sign. -/
def isInfinite (x : Binary64) : Bool := x.exponentField == specialExponent && x.fractionField == 0

/-- Zero, of either sign. -/
def isZero (x : Binary64) : Bool := x.exponentField == 0 && x.fractionField == 0

/-- The whole number which, counted in units of the last place, is the size of a finite number. -/
def significand (x : Binary64) : Nat :=
  if x.exponentField = 0 then x.fractionField else fractionRange + x.fractionField

/-- The power of two that is one unit of the last place of a finite number. -/
def place (x : Binary64) : Int :=
  if x.exponentField = 0 then leastPlace else leastPlace + (x.exponentField - 1 : Nat)

/-- The bits of a number from its sign and the bits of its size. -/
def ofSize (negative : Bool) (size : Nat) : Binary64 :=
  ⟨UInt64.ofNat (if negative then 0x8000000000000000 + size else size)⟩

/-- Positive zero. -/
def zero : Binary64 := ⟨0⟩

/-- The number one. -/
def one : Binary64 := ⟨0x3ff0000000000000⟩

/-- The one bit pattern that arithmetic gives for an undefined result. -/
def undefined : Binary64 := ⟨0x7ff8000000000000⟩

/-- An infinity. -/
def infinity (negative : Bool) : Binary64 := ofSize negative (specialExponent * fractionRange)

/-- The zero of a sign. -/
def signedZero (negative : Bool) : Binary64 := ofSize negative 0

instance : Zero Binary64 := ⟨zero⟩

instance : One Binary64 := ⟨one⟩

/-- The sign is turned round and the size kept. -/
def negate (x : Binary64) : Binary64 := ⟨x.bits ^^^ 0x8000000000000000⟩

/-- The size of a number as bits; for numbers that are not undefined it orders sizes. -/
def sizeBits (x : Binary64) : Nat := x.bits.toNat % 0x8000000000000000

/-- The place of a number on a line on which both zeros stand at the same point. -/
def rank (x : Binary64) : Int := if x.isNegative then -(x.sizeBits : Int) else x.sizeBits

/-- Equality of numbers: an undefined number equals nothing, and both zeros are equal. -/
def equal (x y : Binary64) : Bool := !x.isNaN && !y.isNaN && x.rank == y.rank

instance : BEq Binary64 := ⟨equal⟩

/-- The order of numbers; nothing is below or above an undefined number. -/
def atMost (x y : Binary64) : Bool := !x.isNaN && !y.isNaN && x.rank ≤ y.rank

/-- The strict order of numbers. -/
def below (x y : Binary64) : Bool := x.atMost y && !y.atMost x

end Binary64

end RegionGossip
