import RegionGossip.Wire.Frame
import RegionGossip.Proofs.Wire.Word

/-!
# Frames in a stream

The bytes of a stream that have arrived begin with a whole frame, with a part of one, or with a
length that no frame has. A reader finds out which, takes exactly the frame and leaves what follows
it.
-/

namespace RegionGossip.Wire

/-- A body that a frame can carry. -/
structure Framable (body : List UInt8) : Prop where
  nonempty : 0 < body.length
  bounded : body.length ≤ maxFrameLength

/-- Bytes that a frame can begin with but that do not hold all of it. -/
inductive Unfinished : List UInt8 → Prop
  /-- The length is not there yet. -/
  | length {bytes : List UInt8} : bytes.length < 4 → Unfinished bytes
  /-- The length is there, and the body is shorter. -/
  | body {word part : List UInt8} : word.length = 4 → (part.length : Int) < signedWord word →
    signedWord word ≤ maxFrameLength → Unfinished (word ++ part)

/-- Bytes are taken if there are enough of them. -/
theorem takeBytes_cases (count : Nat) (bytes : List UInt8) :
    (bytes.length < count ∧ takeBytes count bytes = none) ∨
      ∃ front rest, front.length = count ∧ bytes = front ++ rest ∧
        takeBytes count bytes = some (front, rest) := by
  rcases Nat.lt_or_ge bytes.length count with hshort | henough
  · exact .inl ⟨hshort, takeBytes_of_short hshort⟩
  · have hfront : (bytes.take count).length = count := List.length_take_of_le henough
    have hbytes : bytes.take count ++ bytes.drop count = bytes := List.take_append_drop ..
    refine .inr ⟨bytes.take count, bytes.drop count, hfront, hbytes.symm, ?_⟩
    have htake := takeBytes_of_length hfront (bytes.drop count)
    rwa [hbytes] at htake

/-- Bytes are those of the number that they stand for. -/
theorem littleEndian_ofLittleEndian (bytes : List UInt8) :
    littleEndian bytes.length (ofLittleEndian bytes) = bytes := by
  induction bytes with
  | nil => rfl
  | cons byte rest ih =>
    have hbyte := byte.toNat_lt
    have hrest : (byte.toNat + 256 * ofLittleEndian rest) / 256 = ofLittleEndian rest := by omega
    rw [List.length_cons, ofLittleEndian, littleEndian, hrest, ih]
    congr 1
    apply UInt8.toNat.inj
    rw [UInt8.toNat_ofNat']
    omega

/-- A number of so many bytes is below the power that belongs to it. -/
theorem ofLittleEndian_lt (bytes : List UInt8) : ofLittleEndian bytes < 256 ^ bytes.length := by
  induction bytes with
  | nil => decide
  | cons byte rest ih =>
    have hbyte := byte.toNat_lt
    rw [List.length_cons, ofLittleEndian, Nat.pow_succ]
    omega

/-- A number of so many bytes is below the power that belongs to it, in this order too. -/
theorem ofBigEndian_lt {word : List UInt8} {width : Nat} (hwidth : word.length = width) :
    ofBigEndian word < 256 ^ width := by
  have hreverse := ofLittleEndian_lt word.reverse
  rwa [List.length_reverse, hwidth] at hreverse

/-- Bytes are those of the number that they stand for, most significant first. -/
theorem bigEndian_ofBigEndian {word : List UInt8} {width : Nat} (hwidth : word.length = width) :
    bigEndian width (ofBigEndian word) = word := by
  have hreverse := littleEndian_ofLittleEndian word.reverse
  rw [List.length_reverse, hwidth] at hreverse
  rw [bigEndian, ofBigEndian, hreverse, List.reverse_reverse]

/-- Four bytes that stand for a positive number are read as that number. -/
theorem signedWord_of_pos {word : List UInt8} (hword : word.length = 4)
    (hpositive : 0 < signedWord word) : signedWord word = ofBigEndian word := by
  have hbound : ofBigEndian word < 4294967296 := ofBigEndian_lt hword
  rcases Nat.lt_or_ge (ofBigEndian word) (2 ^ 31) with hsmall | hlarge
  · exact Int32.toInt_ofNat_of_lt hsmall
  · rw [signedWord, Int32.toInt_ofNat', Int.bmod_def, Int32.size] at hpositive
    split at hpositive <;> omega

/-- A number below the sign bit is read back from its four bytes. -/
theorem signedWord_bigEndian {n : Nat} (hbound : n < 2 ^ 31) : signedWord (bigEndian 4 n) = n := by
  have hread : ofBigEndian (bigEndian 4 n) = n := by
    rw [ofBigEndian, bigEndian, List.reverse_reverse]
    exact ofLittleEndian_littleEndian (by omega)
  rw [signedWord, hread]
  exact Int32.toInt_ofNat_of_lt hbound

/-- A written word has the width that was asked for. -/
theorem length_bigEndian (width n : Nat) : (bigEndian width n).length = width := by
  rw [bigEndian, List.length_reverse, length_littleEndian]

/-- A whole frame is read, whatever follows it. -/
theorem readFrame_frame {body : List UInt8} (hbody : Framable body) (tail : List UInt8)
    (ended : Bool) : readFrame (frame body ++ tail) ended = .body body tail := by
  obtain ⟨hnonempty, hbounded⟩ := hbody
  have hlength : signedWord (bigEndian 4 body.length) = body.length :=
    signedWord_bigEndian (Nat.lt_of_le_of_lt hbounded (by decide))
  have hword := takeBytes_of_length (length_bigEndian 4 body.length) (body ++ tail)
  rw [readFrame, frame, List.append_assoc, hword]
  simp only [hlength]
  rw [if_neg (by omega), if_neg (by omega), Int.toNat_natCast, takeBytes_append]

/-- For a frame of which a part is missing a reader waits, unless the stream has ended. -/
theorem readFrame_unfinished {bytes : List UInt8} (hunfinished : Unfinished bytes) (ended : Bool) :
    readFrame bytes ended = if ended then .failed (.io .endOfStream) [] else .waiting := by
  cases hunfinished with
  | length hshort => rw [readFrame, takeBytes_of_short hshort]
  | @body word part hword hshort hbounded =>
    have hrest : takeBytes (signedWord word).toNat part = none := takeBytes_of_short (by omega)
    rw [readFrame, takeBytes_of_length hword]
    simp only [hrest]
    rw [if_neg (by omega), if_neg (by omega)]

/-- A length that is not positive is refused as soon as it is there. -/
theorem readFrame_tooShort {word : List UInt8} (hword : word.length = 4)
    (hlength : signedWord word ≤ 0) (tail : List UInt8) (ended : Bool) :
    readFrame (word ++ tail) ended =
      .failed (.outOfSync (.frameTooShort (signedWord word))) tail := by
  rw [readFrame, takeBytes_of_length hword]
  exact if_pos hlength

/-- A length beyond the limit is refused as soon as it is there. -/
theorem readFrame_tooLong {word : List UInt8} (hword : word.length = 4)
    (hlength : (maxFrameLength : Int) < signedWord word) (tail : List UInt8) (ended : Bool) :
    readFrame (word ++ tail) ended =
      .failed (.outOfSync (.frameTooLong (signedWord word))) tail := by
  rw [readFrame, takeBytes_of_length hword]
  exact (if_neg (by omega)).trans (if_pos hlength)

/-- A stream begins with a whole frame, with a part of one, or with a length that no frame has. -/
theorem front_cases (bytes : List UInt8) :
    (∃ body tail, Framable body ∧ bytes = frame body ++ tail) ∨ Unfinished bytes ∨
      ∃ word tail, word.length = 4 ∧ bytes = word ++ tail ∧
        (signedWord word ≤ 0 ∨ (maxFrameLength : Int) < signedWord word) := by
  rcases takeBytes_cases 4 bytes with ⟨hshort, -⟩ | ⟨word, rest, hword, rfl, -⟩
  · exact .inr (.inl (.length hshort))
  · by_cases hlegal : signedWord word ≤ 0 ∨ (maxFrameLength : Int) < signedWord word
    · exact .inr (.inr ⟨word, rest, hword, rfl, hlegal⟩)
    · have hvalue := signedWord_of_pos hword (by omega)
      rcases takeBytes_cases (signedWord word).toNat rest with
        ⟨hshort, -⟩ | ⟨body, tail, hbody, rfl, -⟩
      · exact .inr (.inl (.body hword (by omega) (by omega)))
      · -- the length says how long the body is, so the word is that of the frame
        have hlength : body.length = ofBigEndian word := by omega
        refine .inl ⟨body, tail, ⟨by omega, by omega⟩, ?_⟩
        rw [frame, hlength, bigEndian_ofBigEndian hword, List.append_assoc]

end RegionGossip.Wire
