import RegionGossip.Proofs.Binary64.Rounding

/-!
# Numbers that are a few roundings apart

A rounding changes a number by at most a factor that is close to one, and by half the least unit
where the number is very small. Such distances add up along a computation. In the end they are
counted in bits: what is rounded at the end of a few roundings has almost the bits of the exact
number.
-/

namespace RegionGossip.Binary64

/-- The part of a number that a rounding may add or take away. -/
def roundoff : ℚ := 1 / 2 ^ 53

/-- Two numbers are near when each of them, taken down by as many roundings, is at most the other
one and a slack. -/
structure Near (roundings : Nat) (slack q r : ℚ) : Prop where
  high : r * (1 - roundoff) ^ roundings ≤ q + slack
  low : q * (1 - roundoff) ^ roundings ≤ r + slack

variable {roundings others : Nat} {slack added q r s p t : ℚ}

/-- The factor of some roundings is positive, and not above one. -/
theorem factor_bounds (roundings : Nat) :
    0 < (1 - roundoff) ^ roundings ∧ (1 - roundoff) ^ roundings ≤ 1 := by
  have hfactor : 0 < 1 - roundoff ∧ 1 - roundoff ≤ 1 := by norm_num [roundoff]
  exact ⟨pow_pos hfactor.1 _, pow_le_one₀ hfactor.1.le hfactor.2⟩

/-- Nearness goes both ways. -/
theorem Near.symm (hnear : Near roundings slack q r) : Near roundings slack r q :=
  ⟨hnear.low, hnear.high⟩

/-- More roundings and more slack allow more. -/
theorem Near.weaken (hnear : Near roundings slack q r) (hq : 0 ≤ q) (hr : 0 ≤ r)
    (hroundings : roundings ≤ others) (hslack : slack ≤ added) : Near others added q r := by
  have hfactor : (1 - roundoff) ^ others ≤ (1 - roundoff) ^ roundings :=
    pow_le_pow_of_le_one (by norm_num [roundoff]) (by norm_num [roundoff]) hroundings
  constructor
  · linarith [mul_le_mul_of_nonneg_left hfactor hr, hnear.high]
  · linarith [mul_le_mul_of_nonneg_left hfactor hq, hnear.low]

/-- Distances add up from one number to the next. -/
theorem Near.trans (hfirst : Near roundings slack q r) (hsecond : Near others added r s)
    (hslack : 0 ≤ slack) (hadded : 0 ≤ added) : Near (roundings + others) (slack + added) q s := by
  obtain ⟨hpositive, hone⟩ := factor_bounds roundings
  obtain ⟨hotherPositive, hotherOne⟩ := factor_bounds others
  constructor
  · have hstep := mul_le_mul_of_nonneg_right hsecond.high hpositive.le
    have hless := mul_le_of_le_one_right hadded hone
    calc s * (1 - roundoff) ^ (roundings + others)
        = s * (1 - roundoff) ^ others * (1 - roundoff) ^ roundings := by ring
      _ ≤ (r + added) * (1 - roundoff) ^ roundings := hstep
      _ ≤ q + (slack + added) := by linarith [hfirst.high]
  · have hstep := mul_le_mul_of_nonneg_right hfirst.low hotherPositive.le
    have hless := mul_le_of_le_one_right hslack hotherOne
    calc q * (1 - roundoff) ^ (roundings + others)
        = q * (1 - roundoff) ^ roundings * (1 - roundoff) ^ others := by ring
      _ ≤ (r + slack) * (1 - roundoff) ^ others := hstep
      _ ≤ s + (slack + added) := by linarith [hsecond.low]

/-- Products of near numbers are near. -/
theorem Near.mul (hfirst : Near roundings 0 q r) (hsecond : Near others 0 p t) (hq : 0 ≤ q)
    (hr : 0 ≤ r) (hp : 0 ≤ p) (ht : 0 ≤ t) : Near (roundings + others) 0 (q * p) (r * t) := by
  have hpositive := (factor_bounds roundings).1.le
  have hotherPositive := (factor_bounds others).1.le
  have hhigh := hfirst.high
  have hlow := hfirst.low
  have hotherHigh := hsecond.high
  have hotherLow := hsecond.low
  rw [add_zero] at hhigh hlow hotherHigh hotherLow
  constructor
  · calc r * t * (1 - roundoff) ^ (roundings + others)
        = r * (1 - roundoff) ^ roundings * (t * (1 - roundoff) ^ others) := by ring
      _ ≤ q * p := mul_le_mul hhigh hotherHigh (mul_nonneg ht hotherPositive) hq
      _ = q * p + 0 := (add_zero _).symm
  · calc q * p * (1 - roundoff) ^ (roundings + others)
        = q * (1 - roundoff) ^ roundings * (p * (1 - roundoff) ^ others) := by ring
      _ ≤ r * t := mul_le_mul hlow hotherLow (mul_nonneg hp hotherPositive) hr
      _ = r * t + 0 := (add_zero _).symm

/-- A quotient is not far above another one whose parts are near. -/
theorem Near.div_high (hfirst : Near roundings slack q r) (hsecond : Near others 0 p t)
    (hq : 0 ≤ q) (hp : 0 < p) (ht : 0 < t) (hslack : 0 ≤ slack) (hadded : slack ≤ added * p) :
    r / t * (1 - roundoff) ^ (roundings + others) ≤ q / p + added := by
  have hotherPositive := (factor_bounds others).1
  have hlow := hsecond.low
  rw [add_zero] at hlow
  calc r / t * (1 - roundoff) ^ (roundings + others)
      = r * (1 - roundoff) ^ roundings * (1 - roundoff) ^ others / t := by ring
    _ ≤ (q + slack) * (1 - roundoff) ^ others / t :=
      div_le_div_of_nonneg_right (mul_le_mul_of_nonneg_right hfirst.high hotherPositive.le) ht.le
    _ ≤ (q + slack) / p := by
      rw [div_le_div_iff₀ ht hp, mul_assoc, mul_comm _ p]
      exact mul_le_mul_of_nonneg_left hlow (add_nonneg hq hslack)
    _ ≤ q / p + added := by
      rw [add_div]
      exact add_le_add_right ((div_le_iff₀ hp).2 hadded) _

/-- Quotients of near numbers are near. -/
theorem Near.div (hfirst : Near roundings slack q r) (hsecond : Near others 0 p t) (hq : 0 ≤ q)
    (hr : 0 ≤ r) (hp : 0 < p) (ht : 0 < t) (hslack : 0 ≤ slack) (hfromExact : slack ≤ added * p)
    (hfromOther : slack ≤ added * t) : Near (roundings + others) added (q / p) (r / t) :=
  ⟨hfirst.div_high hsecond hq hp ht hslack hfromExact,
    hfirst.symm.div_high hsecond.symm hr ht hp hslack hfromOther⟩

/-! ## Rounding -/

/-- A rounded number is half a unit away, and a unit is a small part of the number or the least
unit. -/
theorem RoundsTo.distance {bits : Nat} (hrounds : RoundsTo q bits) :
    ∃ unit : ℚ, sizeAt bits ≤ q + unit / 2 ∧ q ≤ sizeAt bits + unit / 2 ∧
      (unit = 2 ^ leastPlace ∨ unit / 2 ≤ q * roundoff) := by
  obtain ⟨steps, count, rfl, hnearest, hbelow, hfull⟩ := hrounds
  have hunit : (0 : ℚ) < 2 ^ (leastPlace + steps) := zpow_pos two_pos _
  have hsize : sizeAt (steps * fractionRange + count) = count * 2 ^ (leastPlace + steps) :=
    sizeAt_count (hnearest.le_range hbelow) (hfull.imp_right fun hle => hnearest.range_le hle)
  have hlow := (le_div_iff₀ hunit).1 hnearest.low
  have hhigh := (div_le_iff₀ hunit).1 hnearest.high
  refine ⟨2 ^ (leastPlace + steps), ?_, ?_, hfull.imp (fun hzero => ?_) fun hle => ?_⟩
  · rw [hsize]
    linarith
  · rw [hsize]
    linarith
  · rw [hzero, Nat.cast_zero, add_zero]
  · rw [zpow_add₀ two_ne_zero 52] at hle
    rw [roundoff]
    norm_num at hle ⊢
    linarith

/-- What is away by a small part of a number is near. -/
theorem near_of_distance {unit : ℚ} (hhigh : r ≤ q + unit / 2) (hlow : q ≤ r + unit / 2)
    (hunit : unit / 2 ≤ q * roundoff) (hq : 0 ≤ q) : Near 1 0 q r := by
  have hfactor : (0 : ℚ) ≤ 1 - roundoff := by norm_num [roundoff]
  constructor
  · have hsquare : 0 ≤ q * roundoff * roundoff := by
      rw [roundoff]
      positivity
    rw [pow_one]
    linarith [mul_le_mul_of_nonneg_right (hhigh.trans (add_le_add_right hunit q)) hfactor]
  · rw [pow_one]
    linarith

/-- A rounding is near, but for half the least unit. -/
theorem RoundsTo.near {bits : Nat} (hrounds : RoundsTo q bits) (hq : 0 ≤ q) :
    Near 1 (2 ^ leastPlace / 2) q (sizeAt bits) := by
  obtain ⟨unit, hhigh, hlow, rfl | hunit⟩ := hrounds.distance
  · have hzero : Near 0 (2 ^ leastPlace / 2) q (sizeAt bits) :=
      ⟨by rwa [pow_zero, mul_one], by rwa [pow_zero, mul_one]⟩
    exact hzero.weaken hq (sizeAt_nonneg bits) (Nat.zero_le 1) le_rfl
  · exact (near_of_distance hhigh hlow hunit hq).weaken hq (sizeAt_nonneg bits) le_rfl
      (div_nonneg (zpow_pos two_pos _).le two_pos.le)

/-- A rounding of a number that is not very small is near. -/
theorem RoundsTo.near_of_le {bits : Nat} (hrounds : RoundsTo q bits)
    (hfull : 2 ^ (52 + leastPlace) ≤ q) : Near 1 0 q (sizeAt bits) := by
  obtain ⟨unit, hhigh, hlow, hunit⟩ := hrounds.distance
  refine near_of_distance hhigh hlow ?_ ((zpow_pos two_pos _).le.trans hfull)
  rcases hunit with rfl | hunit
  · rw [zpow_add₀ two_ne_zero] at hfull
    rw [roundoff]
    norm_num at hfull ⊢
    linarith
  · exact hunit

/-! ## Bits -/

/-- A count at some place stands for no more than its bits do; the units may get larger on the way
to them. -/
theorem le_sizeAt {steps count : Nat} (hsteps : steps = 0 ∨ fractionRange ≤ count) :
    count * 2 ^ (leastPlace + steps) ≤ sizeAt (steps * fractionRange + count) := by
  induction count using Nat.strong_induction_on generalizing steps with
  | _ count ih =>
    rcases Nat.le_total count (2 * fractionRange) with hfits | hover
    · exact (sizeAt_count hfits hsteps).ge
    · have hrange : 0 < fractionRange := by decide
      have hnext := ih (count - fractionRange) (by omega) (.inr (by omega) : steps + 1 = 0 ∨ _)
      have hbits : steps * fractionRange + count =
          (steps + 1) * fractionRange + (count - fractionRange) := by
        rw [Nat.succ_mul]
        omega
      have hcount : (count : ℚ) ≤ (count - fractionRange : Nat) * 2 := by
        exact_mod_cast (by omega : count ≤ (count - fractionRange) * 2)
      rw [hbits]
      refine le_trans ?_ hnext
      rw [Nat.cast_succ, ← add_assoc, zpow_add_one₀ two_ne_zero, mul_comm _ (2 : ℚ), ← mul_assoc]
      exact mul_le_mul_of_nonneg_right hcount (zpow_pos two_pos _).le

/-- After a few roundings the bits are at most one more than the roundings above those of the exact
number. -/
theorem RoundsTo.le_add_of_near {bits found : Nat} (hexact : RoundsTo q bits)
    (hfound : RoundsTo r found) (hnear : Near roundings slack q r)
    (hslack : slack ≤ 2 ^ leastPlace / 4) (hfew : roundings ≤ 1000) :
    found ≤ bits + (roundings + 1) := by
  obtain ⟨steps, count, rfl, hnearest, hbelow, hfull⟩ := hexact
  have hunit : (0 : ℚ) < 2 ^ (leastPlace + steps) := zpow_pos two_pos _
  have hleast : (2 : ℚ) ^ leastPlace ≤ 2 ^ (leastPlace + steps) :=
    zpow_le_zpow_right₀ one_le_two (by omega)
  have hcount : (count : ℚ) ≤ 2 ^ 53 := by
    exact_mod_cast hnearest.le_range hbelow
  have hq := (div_le_iff₀ hunit).1 hnearest.high
  have hfewCast : (roundings : ℚ) ≤ 1000 := by exact_mod_cast hfew
  by_contra hmore
  have htarget : ((count + (roundings + 1) : Nat) : ℚ) * 2 ^ (leastPlace + steps) < r := by
    by_contra hless
    refine hmore (hfound.mono (roundsTo_sizeAt _) ((not_lt.1 hless).trans ?_))
    rw [Nat.add_assoc]
    exact le_sizeAt (hfull.imp_right fun hle =>
      (hnearest.range_le hle).trans (Nat.le_add_right _ _))
  generalize (2 : ℚ) ^ (leastPlace + steps) = unit at *
  -- Each rounding takes away less than one unit of the target.
  have hbernoulli : 1 - roundings * roundoff ≤ (1 - roundoff) ^ roundings := by
    have hpower := one_add_mul_le_pow (by norm_num [roundoff] : (-2 : ℚ) ≤ -roundoff) roundings
    rwa [mul_neg, ← sub_eq_add_neg, ← sub_eq_add_neg] at hpower
  have hpositive := (factor_bounds roundings).1
  have hscaled : ((count + (roundings + 1) : Nat) : ℚ) * (1 - roundings * roundoff) * unit ≤
      (count + 3 / 4) * unit := by
    calc ((count + (roundings + 1) : Nat) : ℚ) * (1 - roundings * roundoff) * unit
        ≤ ((count + (roundings + 1) : Nat) : ℚ) * (1 - roundoff) ^ roundings * unit :=
          mul_le_mul_of_nonneg_right (mul_le_mul_of_nonneg_left hbernoulli (Nat.cast_nonneg _))
            hunit.le
      _ = ((count + (roundings + 1) : Nat) : ℚ) * unit * (1 - roundoff) ^ roundings := by ring
      _ ≤ r * (1 - roundoff) ^ roundings := mul_le_mul_of_nonneg_right htarget.le hpositive.le
      _ ≤ (count + 3 / 4) * unit := by linarith [hnear.high]
  have hbound := le_of_mul_le_mul_right hscaled hunit
  push_cast at hbound
  have hpart : (roundings : ℚ) * (roundoff * (count + (roundings + 1))) ≤
      roundings * (1 + 1 / 8000) := by
    refine mul_le_mul_of_nonneg_left ?_ (Nat.cast_nonneg _)
    rw [roundoff]
    linarith
  linarith

end RegionGossip.Binary64
