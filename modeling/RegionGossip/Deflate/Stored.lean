import RegionGossip.Deflate.Inflate

/-!
# Writing the deflate format

Content is written in stored blocks: nothing is made smaller, and every reader of the format gets
the content back.
-/

namespace RegionGossip.Deflate

/-- The most bytes that one stored block holds. -/
def blockLimit : Nat := 65535

/-- A stored block. -/
def storedBlock (last : Bool) (content : List UInt8) : List UInt8 :=
  (if last then 1 else 0) :: (Wire.littleEndian 2 content.length ++
    Wire.littleEndian 2 (blockLimit - content.length) ++ content)

/-- Content as stored blocks, of which only the last may be short of full. -/
def deflateBlocks : (fuel : Nat) → List UInt8 → List (List UInt8)
  | 0, content => [storedBlock true content]
  | fuel + 1, content =>
    match Wire.takeBytes blockLimit content with
    | some (full, next :: rest) => storedBlock false full :: deflateBlocks fuel (next :: rest)
    | _ => [storedBlock true content]

/-- The deflated form of content. -/
def deflate (content : List UInt8) : List UInt8 :=
  (deflateBlocks (content.length / blockLimit) content).flatten

end RegionGossip.Deflate
