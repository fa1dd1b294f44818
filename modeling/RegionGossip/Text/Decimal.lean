/-!
# Decimal numerals

Numerals in base ten: how a number is written, and which texts are read as one. A written number
has no superfluous leading zero; a read one may have any number of them.
-/

namespace RegionGossip.Decimal

/-- The digits of a number, most significant first; zero has the one digit zero. -/
def digits (n : Nat) : List Char := Nat.toDigits 10 n

/-- The numeral of a number. -/
def text (n : Nat) : String := String.ofList (digits n)

/-- The numeral of an integer, with a minus sign before a negative one. -/
def signedText (n : Int) : String :=
  if n < 0 then "-" ++ text n.natAbs else text n.natAbs

/-- The number that a row of digits stands for. -/
def value (row : List Char) : Nat := Nat.ofDigitChars 10 row 0

/-- Reading the digits that were written gives the number back. -/
theorem value_digits (n : Nat) : value (digits n) = n :=
  Nat.ofDigitChars_toDigits (by decide) (by decide)

/-- Written digits are digits. -/
theorem isDigit_of_mem_digits {n : Nat} {c : Char} (mem : c ∈ digits n) : c.isDigit = true :=
  Nat.isDigit_of_mem_toDigits (by decide) (by decide) mem

/-- Why a text is no unsigned numeral within a bound. -/
inductive Fault
  | empty
  | invalidDigit
  | tooLarge
  | tooSmall
  deriving DecidableEq, Repr

/-- The wording of each cause. -/
def Fault.message : Fault → String
  | .empty => "cannot parse integer from empty string"
  | .invalidDigit => "invalid digit found in string"
  | .tooLarge => "number too large to fit in target type"
  | .tooSmall => "number too small to fit in target type"

/-- Reads digits one after the other, and reports the first fault that is met: a character that is
no digit, or a digit that carries the number past the bound. -/
def readBounded (bound : Nat) : List Char → Nat → Except Fault Nat
  | [], total => .ok total
  | c :: rest, total =>
    if c.isDigit then
      let next := 10 * total + (c.toNat - '0'.toNat)
      if next ≤ bound then readBounded bound rest next else .error .tooLarge
    else .error .invalidDigit

/-- An unsigned numeral: an optional plus sign and one or more digits, with a value up to the
bound. -/
def readNat (bound : Nat) (row : List Char) : Except Fault Nat :=
  match row with
  | [] => .error .empty
  | ['+'] => .error .invalidDigit
  | '+' :: rest => readBounded bound rest 0
  | row => readBounded bound row 0

/-- A signed numeral: an optional sign and one or more digits, from minus `bound + 1` up to
`bound`. -/
def readInt (bound : Nat) (row : List Char) : Except Fault Int :=
  match row with
  | ['-'] => .error .invalidDigit
  | '-' :: rest =>
    match readBounded (bound + 1) rest 0 with
    | .ok n => .ok (-(n : Int))
    | .error .tooLarge => .error .tooSmall
    | .error fault => .error fault
  | row => (readNat bound row).map Int.ofNat

end RegionGossip.Decimal
