import Mathlib.Tactic.SplitIfs
import RegionGossip.Text.Utf8

/-!
# Where the bytes of a text can be cut

The bytes of a text are those of its characters, one after the other. A byte of an ASCII character is
never part of another one, and where bytes in front are those of a text, the rest are those of what
follows it.
-/

namespace RegionGossip

/-- The bytes of a text are those of its characters. -/
theorem utf8_eq_flatMap (text : String) : utf8 text = text.toList.flatMap String.utf8EncodeChar := by
  rw [utf8, ← String.utf8Encode_toList, List.utf8Encode, List.data_toByteArray]

/-- The bytes of two texts side by side are those of the two. -/
theorem utf8_ofList_append (front back : List Char) :
    utf8 (String.ofList (front ++ back)) = utf8 (String.ofList front) ++ utf8 (String.ofList back) := by
  simp [utf8_eq_flatMap]

/-- An ASCII byte of a character is the whole character. -/
theorem toNat_of_mem_utf8EncodeChar {c : Char} {byte : UInt8}
    (hmem : byte ∈ String.utf8EncodeChar c) (hascii : byte.toNat < 128) : c.toNat = byte.toNat := by
  have hcode : c.toNat = c.val.toNat := rfl
  have hwide : ∀ {n : Nat}, 128 ≤ n → n < 256 → byte ≠ UInt8.ofNat n := by
    rintro n hlow hhigh rfl
    rw [UInt8.toNat_ofNat'] at hascii
    omega
  rw [String.utf8EncodeChar] at hmem
  split_ifs at hmem with hone htwo hthree
  · obtain rfl := List.mem_singleton.1 hmem
    rw [UInt8.toNat_ofNat', hcode]
    omega
  -- all bytes of the longer forms are from 128 on
  · simp only [List.mem_cons, List.not_mem_nil, or_false] at hmem
    rcases hmem with hbyte | hbyte <;> exact absurd hbyte (hwide (by omega) (by omega))
  · simp only [List.mem_cons, List.not_mem_nil, or_false] at hmem
    rcases hmem with hbyte | hbyte | hbyte <;> exact absurd hbyte (hwide (by omega) (by omega))
  · simp only [List.mem_cons, List.not_mem_nil, or_false] at hmem
    rcases hmem with hbyte | hbyte | hbyte | hbyte <;>
      exact absurd hbyte (hwide (by omega) (by omega))

/-- An ASCII byte of a text is one of its characters. -/
theorem exists_mem_of_mem_utf8 {text : String} {byte : UInt8} (hmem : byte ∈ utf8 text)
    (hascii : byte.toNat < 128) : ∃ c ∈ text.toList, c.toNat = byte.toNat := by
  rw [utf8_eq_flatMap] at hmem
  obtain ⟨c, hc, hbyte⟩ := List.mem_flatMap.1 hmem
  exact ⟨c, hc, toNat_of_mem_utf8EncodeChar hbyte hascii⟩

/-- Where the bytes of a text begin with those of another one, so does the text. -/
theorem exists_of_utf8_append {text front : String} {rest : List UInt8}
    (hbytes : utf8 text = utf8 front ++ rest) :
    ∃ more, text.toList = front.toList ++ more ∧ utf8 (String.ofList more) = rest := by
  have hencode : front.toList.utf8Encode ++ rest.toByteArray = text.toList.utf8Encode := by
    rw [String.utf8Encode_toList, String.utf8Encode_toList, ← toByteArray_toList front.toByteArray,
      ← toByteArray_toList text.toByteArray, ← utf8, ← utf8, hbytes, List.toByteArray_append]
  obtain ⟨more, hmore⟩ := List.isPrefix_of_utf8Encode_append_eq_utf8Encode _ hencode
  refine ⟨more, hmore.symm, ?_⟩
  have hparts := utf8_ofList_append front.toList more
  rw [hmore, String.ofList_toList, String.ofList_toList, hbytes] at hparts
  exact (List.append_cancel_left hparts).symm

end RegionGossip
