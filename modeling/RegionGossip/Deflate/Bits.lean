/-!
# Bits of a byte string

A byte string read bit by bit, the least significant bit of each byte first. Whole bytes can be read
after the rest of the current byte is given up.
-/

namespace RegionGossip.Deflate

/-- What is left of a byte string: the bits of the byte that was begun, and the bytes after it. -/
structure BitStream where
  begun : List Bool
  bytes : List UInt8

/-- The bits of a byte, least significant first. -/
def byteBits (byte : UInt8) : List Bool := (List.range 8).map fun place => byte.toNat.testBit place

namespace BitStream

/-- A byte string of which nothing was read. -/
def ofBytes (bytes : List UInt8) : BitStream := ⟨[], bytes⟩

/-- The next bit. -/
def next? (stream : BitStream) : Option (Bool × BitStream) :=
  match stream.begun, stream.bytes with
  | bit :: rest, bytes => some (bit, ⟨rest, bytes⟩)
  | [], byte :: rest =>
    match byteBits byte with
    | bit :: others => some (bit, ⟨others, rest⟩)
    | [] => none
  | [], [] => none

/-- A number of the given count of bits, least significant first. -/
def number? : Nat → BitStream → Option (Nat × BitStream)
  | 0, stream => some (0, stream)
  | count + 1, stream => do
    let (bit, stream) ← stream.next?
    let (high, stream) ← number? count stream
    return (2 * high + bit.toNat, stream)

/-- The whole bytes that follow, with the rest of the byte that was begun given up. -/
def align (stream : BitStream) : List UInt8 := stream.bytes

end BitStream

end RegionGossip.Deflate
