import Mathlib.Tactic.Positivity
import Mathlib.Tactic.Ring
import RegionGossip.Binary64.Round
import RegionGossip.Proofs.Binary64.Value

/-!
# Rounding fractions

Rounding brings a fraction to a place at which it has fifty-three binary digits before the point, or
to the least place, and takes the nearest whole count there. That determines the bits, and larger
fractions never get smaller bits. A fraction that a double stands for is rounded to this double.
-/

namespace RegionGossip.Binary64

/-! ## Whole numbers -/

/-- A whole number is nearest to a number; where two are, it is even. -/
structure IsNearest (q : ℚ) (count : Nat) : Prop where
  low : (count : ℚ) - 1 / 2 ≤ q
  high : q ≤ count + 1 / 2
  even : count % 2 = 0 ∨ (count : ℚ) - 1 / 2 < q ∧ q < count + 1 / 2

/-- A whole number is nearest to itself. -/
theorem isNearest_self (count : Nat) : IsNearest count count :=
  ⟨by linarith, by linarith, .inr ⟨by linarith, by linarith⟩⟩

/-- Nothing smaller is nearest to a larger number. -/
theorem IsNearest.mono {q r : ℚ} {first second : Nat} (hfirst : IsNearest q first)
    (hsecond : IsNearest r second) (hle : q ≤ r) : first ≤ second := by
  by_contra hless
  have hsucc : (second : ℚ) + 1 ≤ first := by exact_mod_cast Nat.lt_of_not_le hless
  have hlow := hfirst.low
  have hhigh := hsecond.high
  -- Both numbers are half way between the two counts, so both counts would be even.
  have hone : (first : ℚ) = second + 1 := by linarith
  have hnext : first = second + 1 := by exact_mod_cast hone
  rcases hfirst.even with hfirstEven | ⟨hstrict, -⟩
  · rcases hsecond.even with hsecondEven | ⟨-, hstrict⟩
    · omega
    · linarith
  · linarith

/-- A quotient is rounded to the nearest whole number. -/
theorem isNearest_roundHalfEven {num den : Nat} (hden : 0 < den) :
    IsNearest ((num : ℚ) / den) (roundHalfEven num den) := by
  have hpositive : (0 : ℚ) < den := Nat.cast_pos.2 hden
  have hsplit : (num : ℚ) / den = (num / den : Nat) + (num % den : Nat) / den := by
    rw [div_eq_iff hpositive.ne', add_mul, div_mul_cancel₀ _ hpositive.ne', mul_comm]
    exact_mod_cast (Nat.div_add_mod num den).symm
  have hleft : (0 : ℚ) ≤ (num % den : Nat) / den := by positivity
  have hbelow : ((num % den : Nat) : ℚ) / den < 1 :=
    (div_lt_one hpositive).2 (Nat.cast_lt.2 (Nat.mod_lt num hden))
  have hless : 2 * (num % den) < den ↔ ((num % den : Nat) : ℚ) / den < 1 / 2 := by
    rw [div_lt_div_iff₀ hpositive two_pos, one_mul, mul_comm]
    exact_mod_cast Iff.rfl
  have hmore : den < 2 * (num % den) ↔ 1 / 2 < ((num % den : Nat) : ℚ) / den := by
    rw [div_lt_div_iff₀ two_pos hpositive, one_mul, mul_comm]
    exact_mod_cast Iff.rfl
  rw [hsplit, roundHalfEven]
  generalize ((num % den : Nat) : ℚ) / den = part at *
  simp only [hless, hmore]
  split_ifs with hdown hup heven
  · exact ⟨by linarith, by linarith, .inr ⟨by linarith, by linarith⟩⟩
  · exact ⟨by push_cast; linarith, by push_cast; linarith,
      .inr ⟨by push_cast; linarith, by push_cast; linarith⟩⟩
  · exact ⟨by linarith, by linarith, .inl heven⟩
  · exact ⟨by push_cast; linarith, by push_cast; linarith, .inl (by omega)⟩

/-! ## Places -/

/-- A power, with its exponent split by sign. -/
theorem zpow_eq_div (base : Nat) (hbase : base ≠ 0) (exponent : Int) :
    (base : ℚ) ^ exponent =
      (Nat.pow base exponent.toNat : Nat) / (Nat.pow base (-exponent).toNat : Nat) := by
  have hpositive : (base : ℚ) ≠ 0 := Nat.cast_ne_zero.2 hbase
  rw [eq_div_iff (by exact_mod_cast pow_ne_zero _ hbase)]
  simp only [Nat.pow_eq, Nat.cast_pow]
  rw [← zpow_natCast, ← zpow_natCast, ← zpow_add₀ hpositive]
  congr 1
  omega

/-- A fraction that is measured in units of a power of two. -/
theorem scaled_eq (num den : Nat) (unit : Int) :
    (scaledNumerator num unit : ℚ) / scaledDenominator den unit = num / den / 2 ^ unit := by
  have hunit := zpow_eq_div 2 two_ne_zero unit
  rw [Nat.cast_ofNat] at hunit
  rw [scaledNumerator, scaledDenominator, hunit, Nat.cast_mul, Nat.cast_mul, div_div_div_eq]

/-- A positive fraction lies between the powers of two that the lengths of its parts give. -/
theorem fraction_bounds {num den : Nat} (hnum : 0 < num) (hden : 0 < den) :
    (2 : ℚ) ^ ((num.log2 : Int) - den.log2 - 1) ≤ num / den ∧
      (num : ℚ) / den < 2 ^ ((num.log2 : Int) - den.log2 + 1) := by
  have hpositive : (0 : ℚ) < den := Nat.cast_pos.2 hden
  have hnumLow : (2 : ℚ) ^ (num.log2 : Int) ≤ num := by
    rw [zpow_natCast]
    exact_mod_cast Nat.log2_self_le hnum.ne'
  have hnumHigh : (num : ℚ) < 2 ^ ((num.log2 : Int) + 1) := by
    rw [← Nat.cast_succ, zpow_natCast]
    exact_mod_cast Nat.lt_log2_self
  have hdenLow : (2 : ℚ) ^ (den.log2 : Int) ≤ den := by
    rw [zpow_natCast]
    exact_mod_cast Nat.log2_self_le hden.ne'
  have hdenHigh : (den : ℚ) < 2 ^ ((den.log2 : Int) + 1) := by
    rw [← Nat.cast_succ, zpow_natCast]
    exact_mod_cast Nat.lt_log2_self
  constructor
  · rw [le_div_iff₀ hpositive, sub_sub, zpow_sub₀ two_ne_zero, div_mul_eq_mul_div,
      div_le_iff₀ (zpow_pos two_pos _)]
    exact mul_le_mul hnumLow hdenHigh.le hpositive.le (Nat.cast_nonneg _)
  · rw [div_lt_iff₀ hpositive, sub_add_eq_add_sub, zpow_sub₀ two_ne_zero, div_mul_eq_mul_div,
      lt_div_iff₀ (zpow_pos two_pos _)]
    exact mul_lt_mul hnumHigh hdenLow (zpow_pos two_pos _) (zpow_pos two_pos _).le

/-- The place that rounding takes: the fraction has at most fifty-three binary digits before the
point there, and it has so many unless the place is the least one. -/
theorem roundingPlace_spec {num den : Nat} (hnum : 0 < num) (hden : 0 < den) :
    leastPlace ≤ roundingPlace num den ∧
      (num : ℚ) / den < 2 ^ (53 + roundingPlace num den) ∧
      (roundingPlace num den = leastPlace ∨
        2 ^ (52 + roundingPlace num den) ≤ (num : ℚ) / den) := by
  obtain ⟨hlow, hhigh⟩ := fraction_bounds hnum hden
  have hpower : ∀ {m n : Int}, m ≤ n → (2 : ℚ) ^ m ≤ 2 ^ n :=
    fun hle => zpow_le_zpow_right₀ one_le_two hle
  rw [roundingPlace]
  generalize hguess : (num.log2 : Int) - den.log2 - 53 = guess at *
  have henough : 0x20000000000000 * scaledDenominator den guess ≤ scaledNumerator num guess ↔
      2 ^ (53 + guess) ≤ (num : ℚ) / den := by
    have hscaled : (0 : ℚ) < scaledDenominator den guess := by
      rw [scaledDenominator]
      exact_mod_cast Nat.mul_pos hden (Nat.pow_pos two_pos)
    rw [zpow_add₀ two_ne_zero, ← le_div_iff₀ (zpow_pos two_pos guess), ← scaled_eq,
      le_div_iff₀ hscaled]
    norm_num
    exact_mod_cast Iff.rfl
  simp only [henough]
  generalize (num : ℚ) / den = q at *
  split_ifs with hlarge
  · rcases le_total leastPlace (guess + 1) with hle | hle
    · rw [max_eq_right hle]
      exact ⟨hle, hhigh.trans_le (hpower (by omega)), .inr ((hpower (by omega)).trans hlarge)⟩
    · rw [max_eq_left hle]
      exact ⟨le_rfl, hhigh.trans_le (hpower (by omega)), .inl rfl⟩
  · have hsmall := not_le.1 hlarge
    rcases le_total leastPlace guess with hle | hle
    · rw [max_eq_right hle]
      exact ⟨hle, hsmall, .inr ((hpower (by omega)).trans hlow)⟩
    · rw [max_eq_left hle]
      exact ⟨le_rfl, hsmall.trans_le (hpower (by omega)), .inl rfl⟩

/-! ## Bits -/

/-- The bits below the sign that a number is rounded to. They are those of a nearest count, at a
place at which the number has at most fifty-three binary digits before the point, and as many unless
the place is the least one. -/
def RoundsTo (q : ℚ) (bits : Nat) : Prop :=
  ∃ steps count : Nat, bits = steps * fractionRange + count ∧
    IsNearest (q / 2 ^ (leastPlace + steps)) count ∧
    q < 2 ^ (53 + (leastPlace + steps)) ∧ (steps = 0 ∨ 2 ^ (52 + (leastPlace + steps)) ≤ q)

/-- A size is rounded to its own bits. -/
theorem roundsTo_sizeAt (bits : Nat) : RoundsTo (sizeAt bits) bits := by
  obtain ⟨steps, count, rfl, hcount, hsteps⟩ := exists_count bits
  have hunit : (0 : ℚ) < 2 ^ (leastPlace + steps) := zpow_pos two_pos _
  refine ⟨steps, count, rfl, ?_, ?_, hsteps.imp_right fun hle => ?_⟩
  · rw [sizeAt_count hcount.le hsteps, mul_div_cancel_right₀ _ hunit.ne']
    exact isNearest_self count
  · rw [sizeAt_count hcount.le hsteps, zpow_add₀ two_ne_zero 53]
    refine mul_lt_mul_of_pos_right ?_ hunit
    norm_num [fractionRange] at hcount ⊢
    exact_mod_cast hcount
  · rw [sizeAt_count hcount.le hsteps, zpow_add₀ two_ne_zero 52]
    refine mul_le_mul_of_nonneg_right ?_ hunit.le
    norm_num [fractionRange] at hle ⊢
    exact_mod_cast hle

/-- A number of at most fifty-three binary digits before the point has a nearest count that fits, or
that is one too large. -/
theorem IsNearest.le_range {q : ℚ} {place : Int} {count : Nat}
    (hnearest : IsNearest (q / 2 ^ place) count) (hbelow : q < 2 ^ (53 + place)) :
    count ≤ 2 * fractionRange := by
  refine hnearest.mono (isNearest_self _) ?_
  rw [zpow_add₀ two_ne_zero] at hbelow
  rw [div_le_iff₀ (zpow_pos two_pos _)]
  refine hbelow.le.trans_eq ?_
  norm_num [fractionRange]

/-- A number of fifty-three binary digits before the point has a nearest count of as many. -/
theorem IsNearest.range_le {q : ℚ} {place : Int} {count : Nat}
    (hnearest : IsNearest (q / 2 ^ place) count) (hfull : 2 ^ (52 + place) ≤ q) :
    fractionRange ≤ count := by
  refine (isNearest_self _).mono hnearest ?_
  rw [zpow_add₀ two_ne_zero] at hfull
  rw [le_div_iff₀ (zpow_pos two_pos _)]
  refine le_of_eq_of_le ?_ hfull
  norm_num [fractionRange]

/-- A larger number is not rounded to smaller bits. -/
theorem RoundsTo.mono {q r : ℚ} {first second : Nat} (hfirst : RoundsTo q first)
    (hsecond : RoundsTo r second) (hle : q ≤ r) : first ≤ second := by
  obtain ⟨steps, count, rfl, hnearest, hbelow, hfull⟩ := hfirst
  obtain ⟨otherSteps, otherCount, rfl, hotherNearest, hotherBelow, hotherFull⟩ := hsecond
  have hunit : ∀ place : Int, (0 : ℚ) < 2 ^ place := zpow_pos two_pos
  rcases Nat.lt_trichotomy steps otherSteps with hless | rfl | hmore
  · -- The smaller number has a count of at most `2 ^ 53`, the larger one of at least `2 ^ 52`.
    have hcount := hnearest.le_range hbelow
    have hotherCount := hotherNearest.range_le (hotherFull.resolve_left (by omega))
    have hrange : (steps + 1) * fractionRange ≤ otherSteps * fractionRange :=
      Nat.mul_le_mul_right _ hless
    rw [Nat.succ_mul] at hrange
    omega
  · exact Nat.add_le_add_left
      (hnearest.mono hotherNearest (div_le_div_of_nonneg_right hle (hunit _).le)) _
  · have hlow := hfull.resolve_left (by omega)
    have hpower : (2 : ℚ) ^ (53 + (leastPlace + otherSteps)) ≤ 2 ^ (52 + (leastPlace + steps)) :=
      zpow_le_zpow_right₀ one_le_two (by omega)
    linarith

/-- A number is rounded to no other bits. -/
theorem RoundsTo.unique {q : ℚ} {first second : Nat} (hfirst : RoundsTo q first)
    (hsecond : RoundsTo q second) : first = second :=
  (hfirst.mono hsecond le_rfl).antisymm (hsecond.mono hfirst le_rfl)

/-- The bits below the sign of the double nearest to a positive fraction. -/
def roundedBits (num den : Nat) : Nat :=
  (roundingPlace num den - leastPlace).toNat * fractionRange +
    roundHalfEven (scaledNumerator num (roundingPlace num den))
      (scaledDenominator den (roundingPlace num den))

/-- A positive fraction is rounded to the bits that are computed for it. -/
theorem roundsTo_roundedBits {num den : Nat} (hnum : 0 < num) (hden : 0 < den) :
    RoundsTo (num / den) (roundedBits num den) := by
  obtain ⟨hleast, hbelow, hfull⟩ := roundingPlace_spec hnum hden
  have hplace : leastPlace + ((roundingPlace num den - leastPlace).toNat : Int) =
      roundingPlace num den := by omega
  refine ⟨_, _, rfl, ?_, ?_, ?_⟩
  · rw [hplace, ← scaled_eq]
    refine isNearest_roundHalfEven ?_
    rw [scaledDenominator]
    exact Nat.mul_pos hden (Nat.pow_pos two_pos)
  · rwa [hplace]
  · rw [hplace]
    exact hfull.imp_left fun hequal => by omega

/-- Every number that is not below zero is rounded to some bits. -/
theorem exists_roundsTo {q : ℚ} (hq : 0 ≤ q) : ∃ bits, RoundsTo q bits := by
  rcases hq.eq_or_lt with rfl | hpositive
  · exact ⟨0, sizeAt_zero ▸ roundsTo_sizeAt 0⟩
  · have hnum : 0 < q.num := Rat.num_pos.2 hpositive
    have hrounds := roundsTo_roundedBits (Int.pos_iff_toNat_pos.1 hnum) q.den_pos
    have hcast : ((q.num.toNat : Nat) : ℚ) = q.num := by
      exact_mod_cast Int.toNat_of_nonneg hnum.le
    rw [hcast, Rat.num_div_den] at hrounds
    exact ⟨_, hrounds⟩

/-- The double of a sign and of the bits below it, unless these are too large. -/
def ofBits (negative : Bool) (bits : Nat) : Binary64 :=
  if bits < specialExponent * fractionRange then ofSize negative bits else infinity negative

/-- The double nearest to a fraction has the bits that the fraction is rounded to. -/
theorem ofFraction_eq {negative : Bool} {num den bits : Nat} (hden : 0 < den)
    (hrounds : RoundsTo (num / den) bits) :
    ofFraction negative num den = ofBits negative bits := by
  rw [ofFraction]
  rcases Nat.eq_zero_or_pos num with rfl | hnum
  · rw [Nat.cast_zero, zero_div, ← sizeAt_zero] at hrounds
    obtain rfl := hrounds.unique (roundsTo_sizeAt 0)
    rw [if_pos rfl, ofBits, if_pos (by decide), signedZero]
  · obtain rfl := (roundsTo_roundedBits hnum hden).unique hrounds
    rw [if_neg hnum.ne']
    rfl

end RegionGossip.Binary64
