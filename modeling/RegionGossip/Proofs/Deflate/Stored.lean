import RegionGossip.Deflate.Stored
import RegionGossip.Proofs.Wire.Word

/-!
# Stored blocks are inflated to their content

A stored block holds its content as it is, so inflating a row of stored blocks gives the contents
one after the other. Together with the cutting of content into blocks this makes `deflate` a way of
deflating that loses nothing.
-/

namespace RegionGossip.Deflate

open Wire (takeBytes_append takeBytes_of_length takeBytes_of_short readWord_littleEndian)

/-- A way of deflating loses nothing when what it gives is inflated to what it was given. -/
def Undone (deflate : List UInt8 → List UInt8) : Prop :=
  ∀ content, inflate? (deflate content) = some content

/-- The first byte of a stored block says whether it is the last one, and that it is stored. -/
theorem number?_header (last : Bool) (bytes : List UInt8) :
    ∃ begun, (BitStream.ofBytes ((if last then 1 else 0) :: bytes)).number? 1 =
        some (last.toNat, ⟨false :: false :: begun, bytes⟩) := by
  cases last <;> exact ⟨[false, false, false, false, false], rfl⟩

/-- The content of a stored block is taken as it is. -/
theorem inflateStored_storedBlock {content : List UInt8} (hsize : content.length ≤ blockLimit)
    (limit : Option Nat) (begun : List Bool) (more : List UInt8) (done : Array UInt8) :
    inflateStored limit ⟨begun, Wire.littleEndian 2 content.length ++
        Wire.littleEndian 2 (blockLimit - content.length) ++ content ++ more⟩ done =
      some (done ++ content, BitStream.ofBytes more) := by
  have hlimit : blockLimit = 65535 := rfl
  have hlength : content.length < 256 ^ 2 := by omega
  have hrest : blockLimit - content.length < 256 ^ 2 := by omega
  have hsum : content.length + (blockLimit - content.length) = 65535 := by omega
  simp [inflateStored, BitStream.align, List.append_assoc, readWord_littleEndian hlength,
    readWord_littleEndian hrest, hsum, takeBytes_append]

/-- A stored block gives its content, and the rest is inflated unless it was the last one. -/
theorem inflateBlocks_storedBlock (bitCount fuel : Nat) (last : Bool) {content : List UInt8}
    (hsize : content.length ≤ blockLimit) (more : List UInt8) (done : Array UInt8) :
    inflateBlocks none bitCount (fuel + 1) (BitStream.ofBytes (storedBlock last content ++ more))
        done =
      if last then some (done ++ content)
      else inflateBlocks none bitCount fuel (BitStream.ofBytes more) (done ++ content) := by
  obtain ⟨begun, hheader⟩ := number?_header last (Wire.littleEndian 2 content.length ++
    Wire.littleEndian 2 (blockLimit - content.length) ++ content ++ more)
  have hblock := inflateStored_storedBlock hsize none begun more done
  have hbytes : storedBlock last content ++ more =
      (if last then 1 else 0) :: (Wire.littleEndian 2 content.length ++
        Wire.littleEndian 2 (blockLimit - content.length) ++ content ++ more) := by
    simp [storedBlock]
  have hkind (bytes : List UInt8) : BitStream.number? 2 ⟨false :: false :: begun, bytes⟩ =
      some (0, ⟨begun, bytes⟩) := rfl
  rw [hbytes, inflateBlocks, hheader]
  simp only [Option.bind_eq_bind, Option.bind_some, hkind, inflateBlock, if_true]
  rw [hblock]
  cases last <;> simp [isEnough]

/-- Content is put into the last block, or its front fills one and the rest goes on. -/
theorem deflateBlocks_succ (fuel : Nat) (content : List UInt8) :
    (content.length ≤ blockLimit ∧ deflateBlocks (fuel + 1) content = [storedBlock true content]) ∨
    ∃ full rest, content = full ++ rest ∧ full.length = blockLimit ∧
      deflateBlocks (fuel + 1) content = storedBlock false full :: deflateBlocks fuel rest := by
  by_cases hshort : content.length < blockLimit
  · exact .inl ⟨Nat.le_of_lt hshort, by rw [deflateBlocks, takeBytes_of_short hshort]⟩
  · have hfull : (content.take blockLimit).length = blockLimit := by simp; omega
    have htake := takeBytes_of_length hfull (content.drop blockLimit)
    rw [List.take_append_drop] at htake
    cases hrest : content.drop blockLimit with
    | nil =>
      have hsize := congrArg List.length hrest
      simp only [List.length_drop, List.length_nil] at hsize
      exact .inl ⟨by omega, by rw [deflateBlocks, htake, hrest]⟩
    | cons next rest =>
      refine .inr ⟨content.take blockLimit, next :: rest, ?_, hfull, ?_⟩
      · rw [← hrest, List.take_append_drop]
      · rw [deflateBlocks, htake, hrest]

/-- A row of stored blocks is inflated to the content that was cut. -/
theorem inflateBlocks_deflateBlocks (bitCount : Nat) :
    ∀ (fuel more : Nat) (content : List UInt8) (done : Array UInt8),
      content.length < blockLimit * (fuel + 1) →
      inflateBlocks none bitCount (fuel + 1 + more)
          (BitStream.ofBytes (deflateBlocks fuel content).flatten) done =
        some (done ++ content)
  | 0, more, content, done, hsize => by
    have hlast : content.length ≤ blockLimit := by omega
    have hblock := inflateBlocks_storedBlock bitCount more true hlast [] done
    simpa [deflateBlocks, Nat.add_comm] using hblock
  | fuel + 1, more, content, done, hsize => by
    have hfuel : fuel + 1 + 1 + more = fuel + 1 + more + 1 := by omega
    rcases deflateBlocks_succ fuel content with ⟨hlast, hblocks⟩ | ⟨full, rest, rfl, hfull, hblocks⟩
    · have hblock := inflateBlocks_storedBlock bitCount (fuel + 1 + more) true hlast [] done
      simpa [hblocks, hfuel] using hblock
    · have hrest : rest.length < blockLimit * (fuel + 1) := by
        rw [List.length_append, Nat.mul_succ] at hsize
        omega
      have ih := inflateBlocks_deflateBlocks bitCount fuel more rest (done ++ full) hrest
      rw [hblocks, List.flatten_cons, hfuel,
        inflateBlocks_storedBlock bitCount _ false (Nat.le_of_eq hfull), if_neg (by simp), ih]
      simp [← Array.toList_inj]

/-- A row of blocks has at least as many bytes as blocks. -/
theorem length_le_flatten_deflateBlocks :
    ∀ (fuel : Nat) (content : List UInt8), content.length ≤ (deflateBlocks fuel content).flatten.length
  | 0, content => by simp [deflateBlocks, storedBlock]; omega
  | fuel + 1, content => by
    rcases deflateBlocks_succ fuel content with ⟨_, hblocks⟩ | ⟨full, rest, rfl, _, hblocks⟩
    · rw [hblocks]; simp [storedBlock]; omega
    · have ih := length_le_flatten_deflateBlocks fuel rest
      rw [hblocks]
      simp only [List.flatten_cons, List.length_append, storedBlock, List.length_cons]
      omega

/-- Writing stored blocks loses nothing. -/
theorem undone_deflate : Undone deflate := by
  intro content
  obtain ⟨fuel, hfuel⟩ : ∃ fuel, fuel = content.length / blockLimit := ⟨_, rfl⟩
  have hsize : content.length < blockLimit * (fuel + 1) :=
    hfuel ▸ Nat.lt_mul_div_succ _ (by decide)
  have hlength := length_le_flatten_deflateBlocks fuel content
  have hle : fuel ≤ content.length := hfuel ▸ Nat.div_le_self _ _
  obtain ⟨more, hmore⟩ : ∃ more,
      8 * (deflate content).length + 1 = fuel + 1 + more :=
    ⟨8 * (deflate content).length - fuel, by rw [deflate, ← hfuel]; omega⟩
  rw [inflate?, inflateTo, hmore, deflate, ← hfuel, inflateBlocks_deflateBlocks _ _ _ _ _ hsize]
  simp

end RegionGossip.Deflate
