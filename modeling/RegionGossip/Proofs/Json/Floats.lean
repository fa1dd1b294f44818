import Mathlib.Logic.Function.Iterate
import RegionGossip.Proofs.Binary64.Written
import RegionGossip.Proofs.Json.Scaling

/-!
# What a float on the wire is read as

The digits of a float are gathered in a word and scaled by a power of ten. Every finite float is read
as a finite float of its sign. It is read as itself where its digits are at most `2 ^ 53` and its
last place is at most twenty-two powers of ten away from the point, for then both factors are exact.
-/

namespace RegionGossip

namespace Json

variable {row : List Char} {word taken : Nat} {numeral : Numeral}

/-! ## Gathering digits -/

/-- Digits that fit into a word are all taken. -/
theorem gather_eq (hfits : Nat.ofDigitChars 10 row word ≤ maxWord) :
    gather row word taken = (Nat.ofDigitChars 10 row word, taken + row.length, []) := by
  induction row generalizing word taken with
  | nil => rw [gather, Nat.ofDigitChars_nil, List.length_nil, Nat.add_zero]
  | cons c rest ih =>
    rw [Nat.ofDigitChars_cons] at hfits ⊢
    have hnext := (Decimal.le_ofDigitChars rest _).trans hfits
    rw [gather, if_pos hnext, ih hfits, List.length_cons, Nat.add_assoc, Nat.add_comm 1]

/-! ## Reading numerals -/

/-- An exponent that is not too large is added to the one that comes from the point. -/
theorem applyExponent_eq (negative : Bool) {start : Int} {exponent : Option ExponentPart}
    (hstart : start.natAbs ≤ 2000) (hexponent : (Binary64.exponentOf exponent).natAbs ≤ 2000) :
    applyExponent negative word start exponent =
      doubleOf negative word (start + Binary64.exponentOf exponent) := by
  cases exponent with
  | none => rw [applyExponent, Binary64.exponentOf, add_zero]
  | some part =>
    have hsize : Decimal.value part.digits ≤ 2000 := by
      rw [Binary64.exponentOf] at hexponent
      split at hexponent <;> omega
    have hcounted : exponentSize part.digits = some (Decimal.value part.digits : Int) := by
      refine if_pos ?_
      rw [maxExponent]
      omega
    rw [applyExponent, hcounted, Binary64.exponentOf]
    simp only [maxExponent, beq_iff_eq]
    refine congrArg (doubleOf negative word) ?_
    split <;> omega

/-- A brief numeral is read by the word of its digits and the power of ten of the last one. -/
theorem readFloat_eq (hbrief : Binary64.IsBrief numeral) :
    readFloat numeral = doubleOf numeral.negative numeral.digitsValue numeral.lastPlace := by
  have hfits : numeral.digitsValue ≤ maxWord := hbrief.digitsValue.le.trans (by decide)
  have hvalue : numeral.digitsValue =
      Nat.ofDigitChars 10 (numeral.fraction.getD []) (Decimal.value numeral.whole) := by
    rw [Numeral.digitsValue, Decimal.value, Nat.ofDigitChars_append, Decimal.value]
  have hwhole : Decimal.value numeral.whole ≤ maxWord :=
    (Decimal.le_ofDigitChars _ _).trans (hvalue ▸ hfits)
  have hread : readFloat numeral = readDouble numeral := by
    rw [readFloat, readNumber, hbrief.isWhole]
    cases readDouble numeral <;> rfl
  have hfraction := hbrief.fraction
  have hexponent := hbrief.exponent
  rw [hread, readDouble, gather_eq hwhole, ← Decimal.value]
  simp only
  rw [gather_eq (hvalue ▸ hfits), ← hvalue]
  simp only [List.length_nil, Nat.cast_zero, Nat.zero_add]
  rw [applyExponent_eq _ (by omega) (by omega), Numeral.lastPlace]
  congr 1
  omega

/-! ## Reading floats -/

open Binary64 (RoundsTo ofBits ofSize specialExponent fractionRange)

variable {x : Binary64}

/-- The numeral of a finite double other than zero is read by its digits and their place. -/
theorem readFloat_numeral (hfinite : x.isFinite = true) (hzero : x.isZero = false) :
    readFloat (Binary64.Layout.wire.numeral x) =
      doubleOf x.isNegative (Binary64.Layout.wire.numeral x).digitsValue
        (Binary64.Layout.wire.numeral x).lastPlace := by
  rw [readFloat_eq (Binary64.isBrief_wire_numeral hfinite hzero),
    Binary64.Layout.negative_numeral]

/-- The number that a numeral on the wire stands for is rounded to the double. -/
theorem roundsTo_numeral (hfinite : x.isFinite = true) (hzero : x.isZero = false) :
    RoundsTo (Binary64.Layout.wire.numeral x).size x.sizeBits := by
  rw [Binary64.Layout.size_numeral (by decide) hzero]
  exact Binary64.roundsTo_shortest _ hfinite hzero

/-- A zero is read as the zero of its sign. -/
theorem readFloat_zero (hzero : x.isZero = true) :
    readFloat (Binary64.Layout.wire.numeral x) = some x := by
  have hboth : ∀ negative, readFloat (Binary64.Layout.wire.numeral (ofSize negative 0)) =
      some (ofSize negative 0) := by
    decide +kernel
  rw [← Binary64.ofSize_sizeBits x, Binary64.sizeBits_of_isZero hzero]
  exact hboth x.isNegative

/-- The largest double of each sign is read as itself. -/
theorem readFloat_largest (hlargest : x.sizeBits + 1 = specialExponent * fractionRange) :
    readFloat (Binary64.Layout.wire.numeral x) = some x := by
  have hboth : ∀ negative, readFloat (Binary64.Layout.wire.numeral
      (ofSize negative (specialExponent * fractionRange - 1))) =
      some (ofSize negative (specialExponent * fractionRange - 1)) := by
    decide +kernel
  rw [← Binary64.ofSize_sizeBits x, Nat.eq_sub_of_add_eq hlargest]
  exact hboth x.isNegative

/-- Every finite double is read as a finite one of its sign, at most five places away from it in the
order of doubles. -/
theorem exists_readFloat (hfinite : x.isFinite = true) :
    ∃ y, readFloat (Binary64.Layout.wire.numeral x) = some y ∧ y.isFinite = true ∧
      y.isNegative = x.isNegative ∧ y.sizeBits ≤ x.sizeBits + 5 ∧ x.sizeBits ≤ y.sizeBits + 5 := by
  have hself := Nat.le_add_right x.sizeBits 5
  cases hzero : x.isZero with
  | true => exact ⟨x, readFloat_zero hzero, hfinite, rfl, hself, hself⟩
  | false =>
    have hbits := Nat.succ_le_of_lt (Binary64.isFinite_iff.1 hfinite)
    rcases hbits.eq_or_lt with hlargest | hless
    · exact ⟨x, readFloat_largest hlargest, hfinite, rfl, hself, hself⟩
    · -- The largest double apart, no numeral goes beyond what any word may be scaled to.
      have hbrief := Binary64.isBrief_wire_numeral hfinite hzero
      have hexact := roundsTo_numeral hfinite hzero
      obtain ⟨y, hread, hy, hsign, r, hrounds, hnear⟩ := exists_doubleOf x.isNegative
        (hbrief.digitsValue.le.trans (by decide)) (hbrief.lastPlace.trans' (by decide))
        (le_greatest hexact (Nat.succ_le_of_lt hless))
      rw [readFloat_numeral hfinite hzero]
      exact ⟨y, hread, hy, hsign, hexact.le_add_of_near hrounds hnear le_rfl (by decide),
        hrounds.le_add_of_near hexact hnear.symm le_rfl (by decide)⟩

/-- The digits of a double are few and near enough to the point for both factors to be exact. -/
def HasShortNumeral (x : Binary64) : Prop :=
  (Binary64.Layout.wire.numeral x).digitsValue ≤ 2 ^ 53 ∧
    (Binary64.Layout.wire.numeral x).lastPlace.natAbs ≤ 22

instance (x : Binary64) : Decidable (HasShortNumeral x) := inferInstanceAs (Decidable (_ ∧ _))

/-- A finite double with a short numeral is read as itself. -/
theorem readFloat_of_short (hfinite : x.isFinite = true) (hshort : HasShortNumeral x) :
    readFloat (Binary64.Layout.wire.numeral x) = some x := by
  cases hzero : x.isZero with
  | true => exact readFloat_zero hzero
  | false =>
    obtain ⟨hfew, hnear⟩ := hshort
    have hbits := Binary64.isFinite_iff.1 hfinite
    rw [readFloat_numeral hfinite hzero, doubleOf_eq _ hfew hnear (roundsTo_numeral hfinite hzero) hbits, ofBits,
      if_pos hbits, Binary64.ofSize_sizeBits]

end Json

namespace Binary64

variable {x : Binary64}

/-- What a double is read as from its own numeral on the wire. -/
def reread (x : Binary64) : Binary64 := (Json.readFloat (Layout.wire.numeral x)).getD x

/-- The numeral of a finite double is always read. -/
theorem readFloat_eq_reread (hfinite : x.isFinite = true) :
    Json.readFloat (Layout.wire.numeral x) = some x.reread := by
  obtain ⟨y, hread, -⟩ := Json.exists_readFloat hfinite
  rw [reread, hread, Option.getD_some]

/-- A finite double is read as a finite one of its sign, at most five places away from it. -/
theorem reread_spec (hfinite : x.isFinite = true) :
    x.reread.isFinite = true ∧ x.reread.isNegative = x.isNegative ∧
      x.reread.sizeBits ≤ x.sizeBits + 5 ∧ x.sizeBits ≤ x.reread.sizeBits + 5 := by
  obtain ⟨y, hread, hy⟩ := Json.exists_readFloat hfinite
  rwa [reread, hread, Option.getD_some]

/-- A finite double with a short numeral is read as itself. -/
theorem reread_of_short (hfinite : x.isFinite = true) (hshort : Json.HasShortNumeral x) :
    x.reread = x := by
  rw [reread, Json.readFloat_of_short hfinite hshort, Option.getD_some]

/-- A finite double that is read again and again stays a finite one of its sign, and moves at most
five places each time. -/
theorem iterate_reread_spec (hfinite : x.isFinite = true) (rounds : Nat) :
    (reread^[rounds] x).isFinite = true ∧ (reread^[rounds] x).isNegative = x.isNegative ∧
      (reread^[rounds] x).sizeBits ≤ x.sizeBits + 5 * rounds ∧
      x.sizeBits ≤ (reread^[rounds] x).sizeBits + 5 * rounds := by
  induction rounds with
  | zero => exact ⟨hfinite, rfl, le_rfl, le_rfl⟩
  | succ rounds ih =>
    obtain ⟨hlast, hsign, habove, hbelow⟩ := ih
    obtain ⟨hnext, hnextSign, hnextAbove, hnextBelow⟩ := reread_spec hlast
    rw [Function.iterate_succ_apply']
    exact ⟨hnext, hnextSign.trans hsign, by omega, by omega⟩

end Binary64

end RegionGossip
