import RegionGossip.Ident
import RegionGossip.Proofs.Text.Utf8

/-!
# Equality, order and hash of identifiers agree

Identifiers are compared by equality, put into order and hashed by three separate rules. All three
look at the bytes with the case of ASCII letters folded, so they agree. Folding the bytes of a text
is folding its characters: a byte of a capital ASCII letter is never part of another character. The
terminator of a hash is no byte of any text, so one identifier never contributes the beginning of
what another one does.
-/

namespace RegionGossip

/-- Bytes of characters other than ASCII are not folded. -/
theorem foldByte_of_wide {byte : UInt8} (hwide : 128 ≤ byte.toNat) : foldByte byte = byte := by
  have hsmall : ¬ (65 ≤ byte ∧ byte ≤ 90) := by
    rintro ⟨-, hhigh⟩
    have hhigh : byte.toNat ≤ 90 := UInt8.le_iff_toNat_le.1 hhigh
    omega
  rw [foldByte, if_neg hsmall]

/-- Only capital ASCII letters have a small letter of their own. -/
theorem toLower_of_wide {c : Char} (hwide : 128 ≤ c.toNat) : c.toLower = c := by
  have hsmall : ¬ ('A'.val ≤ c.val ∧ c.val ≤ 'Z'.val) := by
    rintro ⟨-, hhigh⟩
    have hhigh : c.toNat ≤ 90 := UInt32.le_iff_toNat_le.1 hhigh
    omega
  exact dif_neg hsmall

/-- Folding the bytes of a character gives the bytes of its small letter. -/
theorem map_foldByte_utf8EncodeChar (c : Char) :
    (String.utf8EncodeChar c).map foldByte = String.utf8EncodeChar c.toLower := by
  by_cases hascii : c.toNat < 128
  · have hall : ∀ n < 128, (String.utf8EncodeChar (Char.ofNat n)).map foldByte =
        String.utf8EncodeChar (Char.ofNat n).toLower := by
      decide +kernel
    have hchar := hall c.toNat hascii
    rwa [Char.ofNat_toNat] at hchar
  · rw [toLower_of_wide (Nat.le_of_not_lt hascii), List.map_congr_left, List.map_id]
    intro byte hbyte
    refine foldByte_of_wide (Nat.le_of_not_lt fun hsmall => hascii ?_)
    rwa [toNat_of_mem_utf8EncodeChar hbyte hsmall]

/-- Texts with the same bytes are the same text. -/
theorem utf8_inj {left right : String} (hbytes : utf8 left = utf8 right) : left = right := by
  have hread := ofUtf8?_utf8 left
  rw [hbytes, ofUtf8?_utf8] at hread
  exact (Option.some.inj hread).symm

/-- No byte of a character is the terminator of a hash. -/
theorem ne_terminator_of_mem_utf8EncodeChar {c : Char} {byte : UInt8}
    (hmem : byte ∈ String.utf8EncodeChar c) : byte ≠ 0xff := by
  have hbelow : ∀ {n : Nat}, n < 255 → UInt8.ofNat n ≠ 0xff := by
    intro n hn hsame
    have hnat := congrArg UInt8.toNat hsame
    rw [UInt8.toNat_ofNat'] at hnat
    simp at hnat
    omega
  -- the first byte of the longest form is at most 247
  rw [String.utf8EncodeChar] at hmem
  split_ifs at hmem with hone htwo hthree <;>
    simp only [List.mem_cons, List.not_mem_nil, or_false] at hmem
  · exact hmem ▸ hbelow (by omega)
  · rcases hmem with rfl | rfl <;> exact hbelow (by omega)
  · rcases hmem with rfl | rfl | rfl <;> exact hbelow (by omega)
  · rcases hmem with rfl | rfl | rfl | rfl <;> exact hbelow (by omega)

namespace Ident

variable {kind : IdentKind}

/-- The folded bytes of a name are the bytes of the name in small letters. -/
theorem folded_eq (ident : Ident kind) :
    ident.folded = utf8 (String.ofList (ident.name.toList.map Char.toLower)) := by
  rw [folded, utf8_eq_flatMap, utf8_eq_flatMap, String.toList_ofList, List.map_flatMap,
    List.flatMap_map]
  exact congrArg (List.flatMap · _) (funext map_foldByte_utf8EncodeChar)

/-- Identifiers are equal exactly when their names differ at most in the case of ASCII letters. -/
theorem beq_iff_toLower {left right : Ident kind} :
    (left == right) = true ↔
      left.name.toList.map Char.toLower = right.name.toList.map Char.toLower := by
  rw [beq_iff, folded_eq, folded_eq]
  exact ⟨fun hbytes => String.ofList_injective (utf8_inj hbytes), fun hnames => by rw [hnames]⟩

/-- Identifiers are equal exactly when they contribute the same bytes to a hash. -/
theorem beq_iff_hashBytes {left right : Ident kind} :
    (left == right) = true ↔ left.hashBytes = right.hashBytes := by
  rw [beq_iff, hashBytes, hashBytes, List.append_left_inj]

/-- The terminator is no folded byte. -/
theorem terminator_not_mem_folded (ident : Ident kind) : 0xff ∉ ident.folded := by
  rw [folded_eq, utf8_eq_flatMap]
  intro hmem
  obtain ⟨c, -, hbyte⟩ := List.mem_flatMap.1 hmem
  exact ne_terminator_of_mem_utf8EncodeChar hbyte rfl

/-- What one identifier contributes to a hash is never the beginning of what another one does. -/
theorem hashBytes_eq_of_isPrefix {left right : Ident kind}
    (hfront : left.hashBytes <+: right.hashBytes) : left.hashBytes = right.hashBytes := by
  obtain ⟨more, hmore⟩ := hfront
  have htaken (ident : Ident kind) (rest : List UInt8) :
      (ident.folded ++ 0xff :: rest).takeWhile (· != 0xff) = ident.folded := by
    have hpass : ∀ byte ∈ ident.folded, (byte != 0xff) = true := by
      intro byte hbyte
      have hne : byte ≠ 0xff := fun hsame => ident.terminator_not_mem_folded (hsame ▸ hbyte)
      simpa using hne
    rw [List.takeWhile_append_of_pos hpass]
    simp
  have hfolded : left.folded = right.folded := by
    rw [← htaken left more, ← htaken right [], ← hashBytes, ← hmore, hashBytes]
    simp
  rw [hashBytes, hfolded, hashBytes]

end Ident

end RegionGossip
