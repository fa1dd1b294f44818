import Mathlib.Algebra.Order.Field.Power
import Mathlib.Algebra.Order.Field.Rat
import Mathlib.Order.Monotone.Basic
import Mathlib.Tactic.Linarith
import Mathlib.Tactic.NormNum
import RegionGossip.Binary64.Basic

/-!
# The exact values of doubles

A finite double stands for a rational number: its significand, counted in units of its last place.
The bits below the sign, read as one number, are in the order of the sizes that they stand for. So
the order of finite doubles, which is decided on bits, is the order of their values.
-/

namespace RegionGossip.Binary64

variable {x y : Binary64}

/-- The size that the bits below the sign stand for, where they are those of a finite number. -/
def sizeAt (bits : Nat) : ℚ :=
  if bits / fractionRange = 0 then (bits % fractionRange : Nat) * 2 ^ leastPlace
  else (fractionRange + bits % fractionRange : Nat) *
    2 ^ (leastPlace + (bits / fractionRange - 1 : Nat))

/-- The exact value of a finite number. -/
def value (x : Binary64) : ℚ :=
  if x.isNegative then -(x.significand * 2 ^ x.place) else x.significand * 2 ^ x.place

/-- The bits of a count at some place. The count may be one too large for the place; the bits are
then those of the next place. -/
theorem sizeAt_count {steps count : Nat} (hcount : count ≤ 2 * fractionRange)
    (hsteps : steps = 0 ∨ fractionRange ≤ count) :
    sizeAt (steps * fractionRange + count) = count * 2 ^ (leastPlace + steps) := by
  simp only [fractionRange] at hcount hsteps
  rw [sizeAt, fractionRange]
  rcases Nat.lt_or_ge count 0x10000000000000 with hsmall | hlarge
  · obtain rfl : steps = 0 := by omega
    rw [if_pos (by omega), Nat.zero_mul, Nat.zero_add, Nat.mod_eq_of_lt hsmall, Nat.cast_zero,
      add_zero]
  · rw [if_neg (by omega)]
    rcases Nat.lt_or_ge count 0x20000000000000 with hfits | hover
    · rw [show (steps * 0x10000000000000 + count) / 0x10000000000000 - 1 = steps by omega,
        show 0x10000000000000 + (steps * 0x10000000000000 + count) % 0x10000000000000 = count by
          omega]
    · obtain rfl : count = 0x20000000000000 := by omega
      rw [show (steps * 0x10000000000000 + 0x20000000000000) / 0x10000000000000 - 1 = steps + 1 by
          omega,
        show 0x10000000000000 + (steps * 0x10000000000000 + 0x20000000000000) % 0x10000000000000 =
          0x10000000000000 by omega]
      have hplace : leastPlace + (steps + 1 : Nat) = leastPlace + steps + 1 := by omega
      rw [hplace, zpow_add_one₀ two_ne_zero, mul_comm _ 2, ← mul_assoc]
      norm_num

/-- Any bits are those of some count that fits at some place. -/
theorem exists_count (bits : Nat) : ∃ steps count : Nat, bits = steps * fractionRange + count ∧
    count < 2 * fractionRange ∧ (steps = 0 ∨ fractionRange ≤ count) := by
  refine ⟨bits / fractionRange - 1, bits - (bits / fractionRange - 1) * fractionRange, ?_⟩
  simp only [fractionRange]
  omega

/-- One more in the bits is a larger size. -/
theorem strictMono_sizeAt : StrictMono sizeAt := by
  refine strictMono_nat_of_lt_succ fun bits => ?_
  obtain ⟨steps, count, rfl, hcount, hsteps⟩ := exists_count bits
  rw [sizeAt_count hcount.le hsteps, Nat.add_assoc,
    sizeAt_count hcount (hsteps.imp_right fun hle => hle.trans count.le_succ)]
  exact mul_lt_mul_of_pos_right (Nat.cast_lt.2 count.lt_succ_self) (zpow_pos two_pos _)

/-- No bits, no size. -/
theorem sizeAt_zero : sizeAt 0 = 0 := by
  rw [sizeAt, Nat.zero_div, if_pos rfl, Nat.zero_mod, Nat.cast_zero, zero_mul]

/-- Sizes are not below zero. -/
theorem sizeAt_nonneg (bits : Nat) : 0 ≤ sizeAt bits :=
  sizeAt_zero ▸ strictMono_sizeAt.monotone bits.zero_le

/-- The bits below the sign are those of the significand at the last place. -/
theorem exists_place (x : Binary64) : ∃ steps : Nat, x.place = leastPlace + steps ∧
    x.sizeBits = steps * fractionRange + x.significand ∧ x.significand < 2 * fractionRange ∧
    (steps = 0 ∨ fractionRange ≤ x.significand) := by
  have hbits := x.bits.toNat_lt
  refine ⟨x.exponentField - 1, ?_, ?_⟩
  · rw [place]
    split
    · rename_i hzero
      rw [hzero]
      rfl
    · rfl
  · rw [significand]
    by_cases hzero : x.exponentField = 0
    · rw [if_pos hzero]
      simp only [exponentField, fractionRange] at hzero
      simp only [sizeBits, exponentField, fractionField, fractionRange]
      omega
    · rw [if_neg hzero]
      simp only [exponentField, fractionRange] at hzero
      simp only [sizeBits, exponentField, fractionField, fractionRange]
      omega

/-- The bits below the sign stand for the significand, counted in units of the last place. -/
theorem sizeAt_sizeBits (x : Binary64) : sizeAt x.sizeBits = x.significand * 2 ^ x.place := by
  obtain ⟨steps, hplace, hbits, hcount, hsteps⟩ := x.exists_place
  rw [hbits, sizeAt_count hcount.le hsteps, hplace]

/-- The value by the bits below the sign. -/
theorem value_eq_sizeAt (x : Binary64) :
    x.value = if x.isNegative then -sizeAt x.sizeBits else sizeAt x.sizeBits := by
  rw [sizeAt_sizeBits, value]

/-- Zero has the value zero. -/
theorem value_zero : zero.value = 0 := by
  rw [value_eq_sizeAt]
  exact sizeAt_zero

/-- One has the value one. -/
theorem value_one : one.value = 1 := by
  rw [value, show one.isNegative = false from rfl, show one.significand = fractionRange from rfl,
    show one.place = -52 from rfl]
  norm_num [fractionRange]

/-- A finite number is not undefined. -/
theorem isNaN_eq_false (hfinite : x.isFinite = true) : x.isNaN = false := by
  have hexponent : x.exponentField < specialExponent := of_decide_eq_true hfinite
  rw [isNaN, Bool.and_eq_false_iff]
  exact .inl (beq_eq_false_iff_ne.2 hexponent.ne)

/-- The places of numbers on the line are in the order of the values. -/
theorem rank_le_rank_iff : x.rank ≤ y.rank ↔ x.value ≤ y.value := by
  have hx := sizeAt_nonneg x.sizeBits
  have hy := sizeAt_nonneg y.sizeBits
  have hle : ∀ {m n : Nat}, sizeAt m ≤ sizeAt n ↔ m ≤ n := strictMono_sizeAt.le_iff_le
  have hzero : ∀ {n : Nat}, sizeAt n ≤ 0 ↔ n = 0 := by
    intro n
    rw [← sizeAt_zero, hle, Nat.le_zero]
  rw [value_eq_sizeAt, value_eq_sizeAt, rank, rank]
  split <;> split
  · rw [neg_le_neg_iff, neg_le_neg_iff, hle, Nat.cast_le]
  · exact ⟨fun _ => by linarith, fun _ => by omega⟩
  · constructor
    · intro hrank
      rw [hzero.2 (by omega : x.sizeBits = 0) |>.antisymm hx,
        hzero.2 (by omega : y.sizeBits = 0) |>.antisymm hy, neg_zero]
    · intro hvalue
      have hxZero := hzero.1 (by linarith : sizeAt x.sizeBits ≤ 0)
      have hyZero := hzero.1 (by linarith : sizeAt y.sizeBits ≤ 0)
      omega
  · rw [hle, Nat.cast_le]

/-- The order of finite numbers is the order of their values. -/
theorem atMost_iff_value_le (hx : x.isFinite = true) (hy : y.isFinite = true) :
    x.atMost y = true ↔ x.value ≤ y.value := by
  rw [atMost, isNaN_eq_false hx, isNaN_eq_false hy, ← rank_le_rank_iff]
  simp

end RegionGossip.Binary64
