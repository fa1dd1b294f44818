import RegionGossip.Text.Utf8
import RegionGossip.Value
import RegionGossip.Wire.Word

/-!
# The compact form of values

The binary form carries no names and no types. A tag of four bytes says which shape follows; a
text, a list and a map begin with a length or count of eight bytes; all words are written least
significant byte first. Reading checks everything it reads, takes map keys in any order, and leaves
the bytes after the value to the caller.
-/

namespace RegionGossip.Wire.Compact

/-- A shape's tag. -/
def tag (number : Nat) : List UInt8 := littleEndian 4 number

/-- A length or a count. -/
def count (n : Nat) : List UInt8 := littleEndian 8 n

/-- A text is the number of its UTF-8 bytes and these bytes. -/
def writeText (text : String) : List UInt8 :=
  let bytes := utf8 text
  count bytes.length ++ bytes

mutual

/-- The bytes of a value. -/
def writeValue : Value → List UInt8
  | .null => tag 0
  | .bool flag => tag 1 ++ [if flag then 1 else 0]
  | .int number => tag 2 ++ littleEndian 8 number.toUInt64.toNat
  | .float number => tag 3 ++ littleEndian 8 number.bits.toNat
  | .text content => tag 4 ++ writeText content
  | .list items => tag 5 ++ count items.length ++ writeItems items
  | .map entries => tag 6 ++ count entries.length ++ writeEntries entries

/-- The bytes of the items of a list, one after the other. -/
def writeItems : List Value → List UInt8
  | [] => []
  | item :: rest => writeValue item ++ writeItems rest

/-- The bytes of the entries of a map, each a key and its value. -/
def writeEntries : List (String × Value) → List UInt8
  | [] => []
  | (key, value) :: rest => writeText key ++ writeValue value ++ writeEntries rest

end

/-- The bytes of a payload. -/
def writePayload (payload : Payload) : List UInt8 :=
  count payload.entries.length ++ writeEntries payload.entries

/-- A text and the bytes after it. -/
def readText (bytes : List UInt8) : Option (String × List UInt8) := do
  let (length, rest) ← readWord 8 bytes
  let (content, rest) ← takeBytes length rest
  let text ← ofUtf8? content
  return (text, rest)

/-- A truth value is the byte zero or one. -/
def readBool : List UInt8 → Option (Bool × List UInt8)
  | 0 :: rest => some (false, rest)
  | 1 :: rest => some (true, rest)
  | _ => none

mutual

/-- A value and the bytes after it. Each value takes at least one byte, so as much fuel as there
are bytes never runs out before the bytes do. -/
def readValue : (fuel : Nat) → List UInt8 → Option (Value × List UInt8)
  | 0, _ => none
  | fuel + 1, bytes => do
    let (shape, rest) ← readWord 4 bytes
    match shape with
    | 0 => return (.null, rest)
    | 1 =>
      let (flag, rest) ← readBool rest
      return (.bool flag, rest)
    | 2 =>
      let (word, rest) ← readWord 8 rest
      return (.int (UInt64.ofNat word).toInt64, rest)
    | 3 =>
      let (word, rest) ← readWord 8 rest
      return (.float ⟨UInt64.ofNat word⟩, rest)
    | 4 =>
      let (content, rest) ← readText rest
      return (.text content, rest)
    | 5 =>
      let (size, rest) ← readWord 8 rest
      let (items, rest) ← readItems fuel size rest []
      return (.list items, rest)
    | 6 =>
      let (size, rest) ← readWord 8 rest
      let (entries, rest) ← readEntries fuel size rest []
      return (.map entries, rest)
    | _ => none

/-- The given number of values, and the bytes after them. -/
def readItems : (fuel : Nat) → Nat → List UInt8 → List Value →
    Option (List Value × List UInt8)
  | _, 0, bytes, done => some (done.reverse, bytes)
  | 0, _ + 1, _, _ => none
  | fuel + 1, size + 1, bytes, done => do
    let (item, rest) ← readValue fuel bytes
    readItems fuel size rest (item :: done)

/-- The given number of entries, and the bytes after them. -/
def readEntries : (fuel : Nat) → Nat → List UInt8 → List (String × Value) →
    Option (List (String × Value) × List UInt8)
  | _, 0, bytes, done => some (done.reverse, bytes)
  | 0, _ + 1, _, _ => none
  | fuel + 1, size + 1, bytes, done => do
    let (key, rest) ← readText bytes
    let (value, rest) ← readValue fuel rest
    readEntries fuel size rest ((key, value) :: done)

end

/-- A payload and the bytes after it. -/
def readPayload (bytes : List UInt8) : Option (Payload × List UInt8) := do
  let (size, rest) ← readWord 8 bytes
  let (entries, rest) ← readEntries (bytes.length + 1) size rest []
  return (Payload.ofEntries entries, rest)

end RegionGossip.Wire.Compact
