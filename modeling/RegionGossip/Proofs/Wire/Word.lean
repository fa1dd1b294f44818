import Mathlib.Algebra.Order.Ring.Nat
import RegionGossip.Wire.Word

/-!
# Reading words back

A word that fits its width is read back from the front of any bytes.
-/

namespace RegionGossip.Wire

/-- Bytes of a known number are taken from the front of what follows them. -/
theorem takeBytes_of_length {count : Nat} {front : List UInt8} (hlength : front.length = count)
    (rest : List UInt8) : takeBytes count (front ++ rest) = some (front, rest) := by
  subst hlength
  exact takeBytes_append front rest

/-- Fewer bytes than are asked for give nothing. -/
theorem takeLoop_of_short {count : Nat} {bytes taken : List UInt8} (hshort : bytes.length < count) :
    takeLoop count taken bytes = none := by
  induction bytes generalizing count taken with
  | nil => cases count with
    | zero => simp at hshort
    | succ count => rfl
  | cons byte rest ih => cases count with
    | zero => simp at hshort
    | succ count => exact ih (by simpa using hshort)

/-- Fewer bytes than are asked for give nothing. -/
theorem takeBytes_of_short {count : Nat} {bytes : List UInt8} (hshort : bytes.length < count) :
    takeBytes count bytes = none := takeLoop_of_short hshort

/-- A word that fits its width is read back as it was written. -/
theorem ofLittleEndian_littleEndian {width n : Nat} (hfits : n < 256 ^ width) :
    ofLittleEndian (littleEndian width n) = n := by
  induction width generalizing n with
  | zero => simp [littleEndian, ofLittleEndian] at *; omega
  | succ width ih =>
    have hsmaller : n / 256 < 256 ^ width := by
      rw [Nat.div_lt_iff_lt_mul (by decide)]
      rwa [Nat.pow_succ] at hfits
    simp only [littleEndian, ofLittleEndian, ih hsmaller, UInt8.toNat_ofNat']
    omega

/-- A word that fits its width is read back, and what follows it is left. -/
theorem readWord_littleEndian {width n : Nat} (hfits : n < 256 ^ width) (rest : List UInt8) :
    readWord width (littleEndian width n ++ rest) = some (n, rest) := by
  have htake := takeBytes_of_length (length_littleEndian width n) rest
  simp [readWord, htake, ofLittleEndian_littleEndian hfits]

end RegionGossip.Wire
