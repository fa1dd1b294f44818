import RegionGossip.Address.Socket

/-!
# Addresses in numbers and dots

The usual spelling of an address of version 4 names its four bytes. A looser one names one to four
numbers, each in decimal digits, in octal digits after a zero, or in hexadecimal digits after `0x`.
Every number but the last is one byte, and the last fills the bytes that are left: `127.1` is
`127.0.0.1`.
-/

namespace RegionGossip.Address

/-- The number that a row of digits makes in a base. -/
def digitsValue? (base : Nat) (digits : List Char) : Option Nat :=
  if digits.all fun c => SocketAddress.isHexDigit c && SocketAddress.hexDigitValue c < base then
    some (digits.foldl (fun value c => base * value + SocketAddress.hexDigitValue c) 0)
  else none

/-- The number of one part, whose beginning tells the base. -/
def partValue? : List Char → Option Nat
  | [] => none
  | '0' :: 'x' :: c :: digits => digitsValue? 16 (c :: digits)
  | '0' :: 'X' :: c :: digits => digitsValue? 16 (c :: digits)
  | '0' :: digits => digitsValue? 8 digits
  | digits => digitsValue? 10 digits

/-- Puts parts behind the bytes at hand, where `room` bytes are missing. -/
def joinParts? : (room : Nat) → (value : Nat) → List Nat → Option Nat
  | _, _, [] => none
  | 0, _, _ => none
  | room, value, [last] => 
    if last < Nat.pow 256 room then some (value * Nat.pow 256 room + last) else none
  | room + 1, value, part :: rest =>
    if part < 256 then joinParts? room (value * 256 + part) rest else none

/-- The address, as one number of four bytes, that a text in numbers and dots stands for. -/
def dotted? (host : String) : Option Nat := do
  joinParts? 4 0 (← (host.splitOn ".").mapM fun part => partValue? part.toList)

end RegionGossip.Address
