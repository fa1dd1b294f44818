import RegionGossip.Deflate.Huffman
import RegionGossip.Wire.Word

/-!
# Reading the deflate format

A deflated byte string is a row of blocks, each stored as it is or coded with prefix codes that are
fixed or described in the block. What follows the last block is not looked at. A copy that reaches
back before the first byte finds zeros there.

A reader may want no more than the front of the content. It stops as soon as this is there, so it
never sees what is wrong behind it.
-/

namespace RegionGossip.Deflate

/-- Length symbols: the least length and the number of bits that are added to it. -/
def lengthTable : List (Nat × Nat) :=
  [(3, 0), (4, 0), (5, 0), (6, 0), (7, 0), (8, 0), (9, 0), (10, 0), (11, 1), (13, 1), (15, 1),
   (17, 1), (19, 2), (23, 2), (27, 2), (31, 2), (35, 3), (43, 3), (51, 3), (59, 3), (67, 4),
   (83, 4), (99, 4), (115, 4), (131, 5), (163, 5), (195, 5), (227, 5), (258, 0)]

/-- Distance symbols: the least distance and the number of bits that are added to it. -/
def distanceTable : List (Nat × Nat) :=
  [(1, 0), (2, 0), (3, 0), (4, 0), (5, 1), (7, 1), (9, 2), (13, 2), (17, 3), (25, 3), (33, 4),
   (49, 4), (65, 5), (97, 5), (129, 6), (193, 6), (257, 7), (385, 7), (513, 8), (769, 8),
   (1025, 9), (1537, 9), (2049, 10), (3073, 10), (4097, 11), (6145, 11), (8193, 12), (12289, 12),
   (16385, 13), (24577, 13)]

/-- The two codes of a block. -/
structure BlockCodes where
  literals : CodeTree
  distances : CodeTree

/-- Copies bytes from a distance back; each copied byte can be copied again. -/
def copyBack (distance : Nat) : (count : Nat) → Array UInt8 → Array UInt8
  | 0, done => done
  | count + 1, done =>
    let byte := if distance ≤ done.size then done.getD (done.size - distance) 0 else 0
    copyBack distance count (done.push byte)

/-- A value from a table of least values and added bits. -/
def readTabled (table : List (Nat × Nat)) (index : Nat) (stream : BitStream) :
    Option (Nat × BitStream) := do
  let (least, bits) ← table[index]?
  let (more, stream) ← stream.number? bits
  return (least + more, stream)

/-- One symbol of a coded block: whether it ends the block, and what there is after it. -/
def readSymbol (codes : BlockCodes) (stream : BitStream) (done : Array UInt8) :
    Option (Bool × Array UInt8 × BitStream) := do
  let (symbol, stream) ← codes.literals.decode stream
  if symbol < 256 then return (false, done.push (UInt8.ofNat symbol), stream)
  else if symbol = 256 then return (true, done, stream)
  else
    let (length, stream) ← readTabled lengthTable (symbol - 257) stream
    let (distanceSymbol, stream) ← codes.distances.decode stream
    let (distance, stream) ← readTabled distanceTable distanceSymbol stream
    return (false, copyBack distance length done, stream)

/-- Whether no more content is wanted. A reader without a limit wants all of it. -/
def isEnough (limit : Option Nat) (done : Array UInt8) : Bool := limit.any (· ≤ done.size)

/-- The symbols of a coded block up to the one that ends it, or as many as are wanted. Every symbol
takes a bit, so as much fuel as there are bits is enough. -/
def inflateCoded (limit : Option Nat) (codes : BlockCodes) : (fuel : Nat) → BitStream →
    Array UInt8 → Option (Array UInt8 × BitStream)
  | 0, _, _ => none
  | fuel + 1, stream, done =>
    if isEnough limit done then some (done, stream)
    else
      match readSymbol codes stream done with
      | none => none
      | some (true, done, stream) => some (done, stream)
      | some (false, done, stream) => inflateCoded limit codes fuel stream done

/-- The codes that need no description. -/
def fixedCodes : Option BlockCodes := do
  let literals ← CodeTree.ofLengths? (List.replicate 144 8 ++ List.replicate 112 9 ++
    List.replicate 24 7 ++ List.replicate 8 8)
  let distances ← CodeTree.ofLengths? (List.replicate 32 5)
  return ⟨literals, distances⟩

/-- The order in which the lengths of the length code itself are given. -/
def lengthCodeOrder : List Nat :=
  [16, 17, 18, 0, 8, 7, 9, 6, 10, 5, 11, 4, 12, 3, 13, 2, 14, 1, 15]

/-- The lengths of the length code, three bits each. -/
def readLengthCode : List Nat → BitStream → List Nat → Option (List Nat × BitStream)
  | [], stream, lengths => some (lengths, stream)
  | place :: rest, stream, lengths => do
    let (length, stream) ← stream.number? 3
    readLengthCode rest stream (lengths.set place length)

/-- Codeword lengths, coded with the length code: a length, or a repetition of the last one or of
zero. They are gathered in reverse, and must come to exactly `total`. -/
def readLengths (code : CodeTree) (total : Nat) : (fuel : Nat) → BitStream → List Nat →
    Option (List Nat × BitStream)
  | 0, _, _ => none
  | fuel + 1, stream, lengths =>
    if lengths.length = total then some (lengths.reverse, stream)
    else if total < lengths.length then none
    else do
      let (symbol, stream) ← code.decode stream
      if symbol < 16 then readLengths code total fuel stream (symbol :: lengths)
      else if symbol = 16 then
        let last ← lengths.head?
        let (more, stream) ← stream.number? 2
        readLengths code total fuel stream (List.replicate (more + 3) last ++ lengths)
      else if symbol = 17 then
        let (more, stream) ← stream.number? 3
        readLengths code total fuel stream (List.replicate (more + 3) 0 ++ lengths)
      else
        let (more, stream) ← stream.number? 7
        readLengths code total fuel stream (List.replicate (more + 11) 0 ++ lengths)

/-- The codes that a block describes. -/
def readCodes (stream : BitStream) : Option (BlockCodes × BitStream) := do
  let (literalCount, stream) ← stream.number? 5
  let (distanceCount, stream) ← stream.number? 5
  let (lengthCount, stream) ← stream.number? 4
  if 286 < literalCount + 257 ∨ 30 < distanceCount + 1 then none
  else
    let (codeLengths, stream) ←
      readLengthCode (lengthCodeOrder.take (lengthCount + 4)) stream (List.replicate 19 0)
    let lengthCode ← CodeTree.ofLengths? codeLengths
    let total := literalCount + 257 + (distanceCount + 1)
    let (lengths, stream) ← readLengths lengthCode total (total + 1) stream []
    let literals ← CodeTree.ofLengths? (lengths.take (literalCount + 257))
    let distances ← CodeTree.ofLengths? (lengths.drop (literalCount + 257))
    return (⟨literals, distances⟩, stream)

/-- A stored block: its length, the complement of it, and the bytes. Some of these may be missing
where no more are wanted than are there. -/
def inflateStored (limit : Option Nat) (stream : BitStream) (done : Array UInt8) :
    Option (Array UInt8 × BitStream) := do
  let (length, rest) ← Wire.readWord 2 stream.align
  let (complement, rest) ← Wire.readWord 2 rest
  if length + complement ≠ 65535 then none
  else
    match Wire.takeBytes length rest with
    | some (content, rest) => return (done ++ content, BitStream.ofBytes rest)
    | none =>
      if isEnough limit (done ++ rest) then return (done ++ rest, BitStream.ofBytes []) else none

/-- The content of one block of the given kind. -/
def inflateBlock (limit : Option Nat) (kind : Nat) (fuel : Nat) (stream : BitStream)
    (done : Array UInt8) : Option (Array UInt8 × BitStream) :=
  if kind = 0 then inflateStored limit stream done
  else if kind = 1 then do inflateCoded limit (← fixedCodes) fuel stream done
  else if kind = 2 then do
    let (codes, stream) ← readCodes stream
    inflateCoded limit codes fuel stream done
  else none

/-- Block after block, up to the one that is marked as the last or as far as content is wanted. -/
def inflateBlocks (limit : Option Nat) (bitCount : Nat) : (fuel : Nat) → BitStream →
    Array UInt8 → Option (Array UInt8)
  | 0, _, _ => none
  | fuel + 1, stream, done => do
    let (last, stream) ← stream.number? 1
    let (kind, stream) ← stream.number? 2
    let (done, stream) ← inflateBlock limit kind (bitCount + 1) stream done
    if last = 1 ∨ isEnough limit done then return done
    else inflateBlocks limit bitCount fuel stream done

/-- The content of a deflated byte string, read at least as far as it is wanted. -/
def inflateTo (limit : Option Nat) (bytes : List UInt8) : Option (Array UInt8) :=
  inflateBlocks limit (8 * bytes.length) (8 * bytes.length + 1) (BitStream.ofBytes bytes) #[]

/-- The content of a deflated byte string. -/
def inflate? (bytes : List UInt8) : Option (List UInt8) := (inflateTo none bytes).map Array.toList

/-- The first bytes of the content of a deflated byte string, as many as are wanted if there are so
many. What stands behind them need not be deflated content. -/
def inflateFront? (limit : Nat) (bytes : List UInt8) : Option (List UInt8) :=
  (inflateTo (some limit) bytes).map fun done => (done.take limit).toList

end RegionGossip.Deflate
