/-!
# Words of fixed width

Integers of a fixed number of bytes in either byte order, and readers that take a given number of
bytes from the front of the input. A reader gives the value and the bytes after it, or nothing when
the input is too short.
-/

namespace RegionGossip.Wire

/-- The bytes of a number, least significant first; what does not fit is cut off. -/
def littleEndian : (width : Nat) → Nat → List UInt8
  | 0, _ => []
  | width + 1, n => UInt8.ofNat n :: littleEndian width (n / 256)

/-- The bytes of a number, most significant first. -/
def bigEndian (width n : Nat) : List UInt8 := (littleEndian width n).reverse

/-- The number whose bytes these are, least significant first. -/
def ofLittleEndian : List UInt8 → Nat
  | [] => 0
  | byte :: rest => byte.toNat + 256 * ofLittleEndian rest

/-- The number whose bytes these are, most significant first. -/
def ofBigEndian (bytes : List UInt8) : Nat := ofLittleEndian bytes.reverse

/-- Moves bytes from the front of the input to a reversed prefix. -/
def takeLoop : Nat → List UInt8 → List UInt8 → Option (List UInt8 × List UInt8)
  | 0, taken, rest => some (taken.reverse, rest)
  | _ + 1, _, [] => none
  | count + 1, taken, byte :: rest => takeLoop count (byte :: taken) rest

/-- Exactly the given number of bytes and what follows them. -/
def takeBytes (count : Nat) (bytes : List UInt8) : Option (List UInt8 × List UInt8) :=
  takeLoop count [] bytes

/-- A number of the given width, least significant byte first, and what follows it. -/
def readWord (width : Nat) (bytes : List UInt8) : Option (Nat × List UInt8) := do
  let (word, rest) ← takeBytes width bytes
  return (ofLittleEndian word, rest)

/-- Taking as many bytes as stand in front gives exactly those. -/
theorem takeLoop_append (front taken rest : List UInt8) :
    takeLoop front.length taken (front ++ rest) = some (taken.reverse ++ front, rest) := by
  induction front generalizing taken with
  | nil => simp [takeLoop]
  | cons byte front ih => simp [takeLoop, ih]

/-- What is taken stands in front of what is left. -/
theorem takeBytes_append (front rest : List UInt8) :
    takeBytes front.length (front ++ rest) = some (front, rest) := by
  simp [takeBytes, takeLoop_append]

/-- A written word has the width that was asked for. -/
theorem length_littleEndian (width n : Nat) : (littleEndian width n).length = width := by
  induction width generalizing n with
  | zero => rfl
  | succ width ih => simp [littleEndian, ih]

end RegionGossip.Wire
