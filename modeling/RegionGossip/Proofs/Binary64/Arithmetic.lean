import Mathlib.Tactic.FieldSimp
import RegionGossip.Binary64.Arith
import RegionGossip.Proofs.Binary64.Numeral
import RegionGossip.Proofs.Binary64.Rounding

/-!
# Products and quotients are rounded once

The product and the quotient of two finite doubles are the doubles nearest to the exact product and
quotient of their sizes. So what is known of rounding carries over to them: results grow with the
operands, and a result that a double stands for is exact.
-/

namespace RegionGossip.Binary64

variable {x y : Binary64} {negative : Bool} {bits : Nat}

/-! ## Bits and signs -/

/-- The size of a finite number, whatever its sign. -/
def size (x : Binary64) : ℚ := sizeAt x.sizeBits

/-- A size is not below zero. -/
theorem size_nonneg (x : Binary64) : 0 ≤ x.size := sizeAt_nonneg _

/-- A size is the significand, counted in units of the last place. -/
theorem size_eq (x : Binary64) : x.size = x.significand * 2 ^ x.place := sizeAt_sizeBits x

/-- The size of one. -/
theorem size_one : one.size = 1 := by
  rw [size_eq, show one.significand = fractionRange from rfl, show one.place = -52 from rfl]
  norm_num [fractionRange]

/-- A finite number has the bits of a size that is not too large. -/
theorem isFinite_iff : x.isFinite = true ↔ x.sizeBits < specialExponent * fractionRange := by
  have hbits := x.bits.toNat_lt
  rw [isFinite, decide_eq_true_eq]
  simp only [exponentField, sizeBits, specialExponent, fractionRange]
  omega

/-- A finite number is not infinite. -/
theorem isInfinite_eq_false (hfinite : x.isFinite = true) : x.isInfinite = false := by
  have hexponent : x.exponentField < specialExponent := of_decide_eq_true hfinite
  rw [isInfinite, Bool.and_eq_false_iff]
  exact .inl (beq_eq_false_iff_ne.2 hexponent.ne)

/-- The bits of a number that is made of a sign and bits below it. -/
theorem toNat_bits_ofSize (negative : Bool) (hbits : bits < 0x8000000000000000) :
    (ofSize negative bits).bits.toNat = if negative then 0x8000000000000000 + bits else bits := by
  rw [ofSize]
  show (UInt64.ofNat _).toNat = _
  rw [UInt64.toNat_ofNat']
  refine Nat.mod_eq_of_lt ?_
  cases negative <;> simp <;> omega

/-- The bits below the sign are those that a number is made of. -/
theorem sizeBits_ofSize (negative : Bool) (hbits : bits < 0x8000000000000000) :
    (ofSize negative bits).sizeBits = bits := by
  rw [sizeBits, toNat_bits_ofSize negative hbits]
  cases negative <;> simp <;> omega

/-- The sign is the one that a number is made of. -/
theorem isNegative_ofSize (negative : Bool) (hbits : bits < 0x8000000000000000) :
    (ofSize negative bits).isNegative = negative := by
  rw [isNegative, toNat_bits_ofSize negative hbits]
  cases negative with
  | false => exact decide_eq_false (Nat.not_le.2 hbits)
  | true => exact decide_eq_true (Nat.le_add_right _ _)

/-- A number is made of its sign and the bits below it. -/
theorem ofSize_sizeBits (x : Binary64) : ofSize x.isNegative x.sizeBits = x := by
  have hbits := x.bits.toNat_lt
  have hsize : x.sizeBits < 0x8000000000000000 := Nat.mod_lt _ (by decide)
  have hequal : (ofSize x.isNegative x.sizeBits).bits = x.bits := by
    rw [← UInt64.toNat_inj, toNat_bits_ofSize _ hsize]
    simp only [isNegative, sizeBits, decide_eq_true_eq]
    split <;> omega
  obtain ⟨bits⟩ := x
  exact congrArg Binary64.mk hequal

/-- Numbers with the same sign and the same bits below it are the same. -/
theorem eq_of_sizeBits (hsign : x.isNegative = y.isNegative) (hsize : x.sizeBits = y.sizeBits) :
    x = y := by
  rw [← ofSize_sizeBits x, ← ofSize_sizeBits y, hsign, hsize]

/-- Zero has no bits below its sign. -/
theorem sizeBits_of_isZero (hzero : x.isZero = true) : x.sizeBits = 0 := by
  simp only [isZero, Bool.and_eq_true, beq_iff_eq, exponentField, fractionField, fractionRange]
    at hzero
  rw [sizeBits]
  omega

/-- Turning the sign round keeps the bits below it. -/
theorem negate_spec (x : Binary64) :
    x.negate.isNegative = !x.isNegative ∧ x.negate.sizeBits = x.sizeBits := by
  have hbits := x.bits.toNat_lt
  have hword : x.negate.bits.toNat = x.bits.toNat ^^^ 2 ^ 63 := UInt64.toNat_xor ..
  have hsize : (x.bits.toNat ^^^ 2 ^ 63) % 2 ^ 63 = x.bits.toNat % 2 ^ 63 := by
    rw [Nat.xor_mod_two_pow, Nat.mod_self, Nat.xor_zero]
  have hsign : (x.bits.toNat ^^^ 2 ^ 63) / 2 ^ 63 = x.bits.toNat / 2 ^ 63 ^^^ 1 := by
    rw [Nat.xor_div_two_pow, Nat.div_self (by decide)]
  rw [isNegative, isNegative, sizeBits, sizeBits, hword]
  generalize x.bits.toNat ^^^ 2 ^ 63 = turned at *
  refine ⟨?_, hsize⟩
  rw [← decide_not]
  refine decide_eq_decide.2 ?_
  rcases (by omega : x.bits.toNat / 2 ^ 63 = 0 ∨ x.bits.toNat / 2 ^ 63 = 1) with hpart | hpart
  · rw [hpart, show 0 ^^^ 1 = 1 from rfl] at hsign
    omega
  · rw [hpart, show 1 ^^^ 1 = 0 from rfl] at hsign
    omega

/-! ## Operations -/

/-- The double nearest to a count of units of a power of two. -/
theorem ofScaled_eq {count : Nat} {unit : Int} (hrounds : RoundsTo (count * 2 ^ unit) bits) :
    ofScaled negative count unit = ofBits negative bits := by
  have hunit := zpow_eq_div 2 two_ne_zero unit
  rw [Nat.cast_ofNat] at hunit
  refine ofFraction_eq (Nat.pow_pos two_pos) ?_
  rwa [Nat.cast_mul, mul_div_assoc, ← hunit]

/-- A product is the double nearest to the product of the sizes. -/
theorem mul_eq (hx : x.isFinite = true) (hy : y.isFinite = true)
    (hrounds : RoundsTo (x.size * y.size) bits) :
    x * y = ofBits (x.isNegative != y.isNegative) bits := by
  have hproduct : x.size * y.size =
      (x.significand * y.significand : Nat) * 2 ^ (x.place + y.place) := by
    rw [size_eq, size_eq, zpow_add₀ two_ne_zero]
    push_cast
    ring
  rw [hproduct] at hrounds
  show mul x y = _
  rw [mul, isNaN_eq_false hx, isNaN_eq_false hy, isInfinite_eq_false hx, isInfinite_eq_false hy]
  simp only [Bool.or_self, Bool.false_eq_true, if_false]
  exact ofScaled_eq hrounds

/-- A quotient is the double nearest to the quotient of the sizes. -/
theorem div_eq (hx : x.isFinite = true) (hy : y.isFinite = true) (hzero : y.isZero = false)
    (hrounds : RoundsTo (x.size / y.size) bits) :
    x / y = ofBits (x.isNegative != y.isNegative) bits := by
  have hpositive : 0 < y.significand := (significand_bounds hzero).1
  have hunit := zpow_eq_div 2 two_ne_zero (x.place - y.place)
  rw [Nat.cast_ofNat] at hunit
  have hquotient : x.size / y.size =
      (x.significand * Nat.pow 2 (x.place - y.place).toNat : Nat) /
        (y.significand * Nat.pow 2 (-(x.place - y.place)).toNat : Nat) := by
    rw [size_eq, size_eq, mul_div_mul_comm, ← zpow_sub₀ two_ne_zero, hunit]
    push_cast
    rw [div_mul_div_comm]
  rw [hquotient] at hrounds
  show div x y = _
  rw [div, isNaN_eq_false hx, isNaN_eq_false hy, isInfinite_eq_false hx, isInfinite_eq_false hy,
    hzero]
  simp only [Bool.or_self, Bool.false_eq_true, if_false]
  exact ofFraction_eq (Nat.mul_pos hpositive (Nat.pow_pos two_pos)) hrounds

/-- A whole number becomes the double nearest to it. -/
theorem ofInt_eq {n : Nat} (hrounds : RoundsTo n bits) : ofInt n = ofBits false bits := by
  have hsign : decide ((n : Int) < 0) = false := decide_eq_false (by omega)
  rw [ofInt, hsign, Int.natAbs_natCast]
  refine ofFraction_eq Nat.one_pos ?_
  rwa [Nat.cast_one, div_one]

/-- A power of ten becomes the double nearest to it. -/
theorem ofDecimal_one_eq {exponent : Nat} (hrounds : RoundsTo (10 ^ exponent) bits) :
    ofDecimal false 1 exponent = ofBits false bits := by
  refine ofFraction_eq (Nat.pow_pos (by decide)) ?_
  simpa using hrounds

/-! ## Results within the range -/

/-- Bits that are not too large are those of a finite number of the sign. -/
theorem ofBits_spec (negative : Bool) (hbits : bits < specialExponent * fractionRange) :
    (ofBits negative bits).isFinite = true ∧ (ofBits negative bits).isNegative = negative ∧
      (ofBits negative bits).sizeBits = bits := by
  have hword : bits < 0x8000000000000000 := hbits.trans (by decide)
  have hsizeBits := sizeBits_ofSize negative hword
  rw [ofBits, if_pos hbits]
  exact ⟨isFinite_iff.2 (hsizeBits.symm ▸ hbits), isNegative_ofSize negative hword, hsizeBits⟩

/-- What is rounded to bits that are not too large is rounded to those of the double. -/
theorem RoundsTo.sizeBits_ofBits {q : ℚ} (hrounds : RoundsTo q bits) (negative : Bool)
    (hbits : bits < specialExponent * fractionRange) :
    RoundsTo q (ofBits negative bits).sizeBits := by
  rw [(ofBits_spec negative hbits).2.2]
  exact hrounds

/-- Bits that are too large are those of no finite number. -/
theorem lt_of_isFinite_ofBits (hfinite : (ofBits negative bits).isFinite = true) :
    bits < specialExponent * fractionRange := by
  by_contra hlarge
  rw [ofBits, if_neg hlarge] at hfinite
  cases negative <;> exact absurd hfinite (by decide)

/-- A small whole number is the size of some bits. -/
theorem exists_sizeAt_eq {n : Nat} (hsmall : n ≤ 2 * fractionRange) :
    ∃ bits, sizeAt bits = n := by
  rcases Nat.eq_zero_or_pos n with rfl | hpositive
  · exact ⟨0, sizeAt_zero⟩
  rcases hsmall.eq_or_lt with rfl | hless
  · refine ⟨1074 * fractionRange + 2 * fractionRange, ?_⟩
    rw [sizeAt_count le_rfl (.inr (by decide)), show leastPlace + (1074 : Nat) = 0 from rfl,
      zpow_zero, mul_one]
  · -- The count is brought to fifty-three binary digits.
    have hlog : n.log2 < 53 := (Nat.log2_lt hpositive.ne').2 hless
    have hlow : fractionRange ≤ n * 2 ^ (52 - n.log2) := by
      calc fractionRange = 2 ^ n.log2 * 2 ^ (52 - n.log2) := by
            rw [← Nat.pow_add, Nat.add_sub_cancel' (Nat.le_of_lt_succ hlog)]
            rfl
        _ ≤ n * 2 ^ (52 - n.log2) := Nat.mul_le_mul_right _ (Nat.log2_self_le hpositive.ne')
    have hhigh : n * 2 ^ (52 - n.log2) ≤ 2 * fractionRange := by
      calc n * 2 ^ (52 - n.log2) ≤ 2 ^ (n.log2 + 1) * 2 ^ (52 - n.log2) :=
            Nat.mul_le_mul_right _ Nat.lt_log2_self.le
        _ = 2 * fractionRange := by
            rw [← Nat.pow_add, show n.log2 + 1 + (52 - n.log2) = 53 by omega]
            rfl
    refine ⟨(n.log2 + 1022) * fractionRange + n * 2 ^ (52 - n.log2), ?_⟩
    have hplace : leastPlace + (n.log2 + 1022 : Nat) = -((52 - n.log2 : Nat) : Int) := by
      rw [leastPlace]
      omega
    rw [sizeAt_count hhigh (.inr hlow), hplace, zpow_neg, zpow_natCast]
    push_cast
    exact mul_inv_cancel_right₀ (pow_ne_zero _ two_ne_zero) _

/-- A number up to the bound of unsigned words is rounded to bits that are not too large. -/
theorem bits_lt_of_le_word {q : ℚ} (hrounds : RoundsTo q bits) (hword : q ≤ 2 ^ 64) :
    bits < specialExponent * fractionRange ∧ sizeAt bits ≤ 2 ^ 64 := by
  have hbound : sizeAt (1086 * fractionRange + fractionRange) = 2 ^ 64 := by
    rw [sizeAt_count (by decide) (.inr le_rfl), show leastPlace + (1086 : Nat) = 12 from rfl]
    norm_num [fractionRange]
  have hle : bits ≤ 1086 * fractionRange + fractionRange :=
    hrounds.mono (roundsTo_sizeAt _) (hbound.symm ▸ hword)
  exact ⟨hle.trans_lt (by decide), hbound ▸ strictMono_sizeAt.monotone hle⟩

end RegionGossip.Binary64
