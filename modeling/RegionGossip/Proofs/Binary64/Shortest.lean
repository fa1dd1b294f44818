import Mathlib.Tactic.FieldSimp
import RegionGossip.Proofs.Binary64.Numeral
import RegionGossip.Proofs.Binary64.Rounding

/-!
# Shortest digits are rounded back

The interval in which digits are searched for holds nothing but numbers that are rounded to the
double. So the number that the digits of a finite double stand for is rounded to this double,
whichever of its neighbours is the nearer one.
-/

namespace RegionGossip.Binary64

variable {x : Binary64}

/-! ## The interval -/

/-- What lies in the interval around a significand is no more than half a unit away from it, nearer
than that if the significand is odd, and no more than a quarter below it where the next number below
is only half a unit away. -/
theorem Interval.bounds_of_holds {significand num den : Nat} {place : Int} (hden : 0 < den)
    (hsignificand : 0 < significand)
    (hholds : (Interval.around significand place).holds num den = true) :
    let q : ℚ := num / den / 4
    IsNearest q significand ∧
      (significand = fractionRange → leastPlace < place → (significand : ℚ) - 1 / 4 ≤ q) := by
  intro q
  have hdenPositive : (0 : ℚ) < den := Nat.cast_pos.2 hden
  have hquotient : (num : ℚ) / den = 4 * q := (mul_div_cancel₀ _ four_ne_zero).symm
  have hle : ∀ m : Nat, m * den ≤ num ↔ (m : ℚ) ≤ 4 * q := fun m => by
    rw [← hquotient, le_div_iff₀ hdenPositive]
    exact_mod_cast Iff.rfl
  have hlt : ∀ m : Nat, m * den < num ↔ (m : ℚ) < 4 * q := fun m => by
    rw [← hquotient, lt_div_iff₀ hdenPositive]
    exact_mod_cast Iff.rfl
  have hge : ∀ m : Nat, num ≤ m * den ↔ 4 * q ≤ (m : ℚ) := fun m => by
    rw [← not_lt, hlt, not_lt]
  have hgt : ∀ m : Nat, num < m * den ↔ 4 * q < (m : ℚ) := fun m => by
    rw [← not_le, hle, not_le]
  have hwide : ((4 * significand - 2 : Nat) : ℚ) = 4 * significand - 2 := by
    rw [Nat.cast_sub (by omega)]
    norm_cast
  have hnarrow : ((4 * significand - 1 : Nat) : ℚ) = 4 * significand - 1 := by
    rw [Nat.cast_sub (by omega)]
    norm_cast
  have hupper : ((4 * significand + 2 : Nat) : ℚ) = 4 * significand + 2 := by norm_cast
  rw [Interval.holds, Interval.around] at hholds
  simp only [decide_eq_true_eq, hle, hlt, hge, hgt, hupper] at hholds
  split_ifs at hholds with heven hclose hclose
  all_goals
    simp only [Bool.and_eq_true, decide_eq_true_eq, hwide, hnarrow] at hholds
    obtain ⟨hlow, hhigh⟩ := hholds
  · exact ⟨⟨by linarith, by linarith, .inl heven⟩, fun _ _ => by linarith⟩
  · exact ⟨⟨by linarith, by linarith, .inl heven⟩, fun hrange hplace =>
      absurd ⟨hrange, hplace⟩ hclose⟩
  · exact ⟨⟨by linarith, by linarith, .inr ⟨by linarith, by linarith⟩⟩, fun _ _ => by linarith⟩
  · exact ⟨⟨by linarith, by linarith, .inr ⟨by linarith, by linarith⟩⟩, fun hrange hplace =>
      absurd ⟨hrange, hplace⟩ hclose⟩

/-- Whatever lies in the interval around a double is rounded to it. -/
theorem roundsTo_of_holds (hzero : x.isZero = false) {num den : Nat} (hden : 0 < den)
    (hholds : (Interval.around x.significand x.place).holds num den = true) :
    RoundsTo (num / den / 4 * 2 ^ x.place) x.sizeBits := by
  obtain ⟨hnearest, hclose⟩ :=
    Interval.bounds_of_holds hden (significand_bounds hzero).1 hholds
  obtain ⟨steps, hplace, hbits, hcount, hsteps⟩ := x.exists_place
  generalize (num : ℚ) / den / 4 = q at *
  rw [hplace] at hclose ⊢
  rw [hbits]
  have hunit : ∀ place : Int, (0 : ℚ) < 2 ^ place := zpow_pos two_pos
  have hbelow : q < 2 ^ (53 : Int) := by
    have hlast : (x.significand : ℚ) + 1 ≤ 2 * fractionRange := by exact_mod_cast hcount
    norm_num [fractionRange] at hlast ⊢
    linarith [hnearest.high]
  by_cases hfull : steps = 0 ∨ (2 : ℚ) ^ (52 : Int) ≤ q
  · refine ⟨steps, x.significand, rfl, ?_, ?_, hfull.imp_right fun hle => ?_⟩
    · rwa [mul_div_cancel_right₀ _ (hunit _).ne']
    · rw [zpow_add₀ two_ne_zero 53]
      exact mul_lt_mul_of_pos_right hbelow (hunit _)
    · rw [zpow_add₀ two_ne_zero 52]
      exact mul_le_mul_of_nonneg_right hle (hunit _).le
  · -- Below the least significand of a place, the nearest count is that of the place before.
    obtain ⟨hlater, hless⟩ := not_or.1 hfull
    rw [not_le] at hless
    norm_num at hless
    obtain ⟨earlier, rfl⟩ := Nat.exists_eq_succ_of_ne_zero hlater
    have hrange : x.significand = fractionRange := by
      refine le_antisymm (Nat.le_of_lt_succ ?_) (hsteps.resolve_left hlater)
      have hcast : (x.significand : ℚ) < 0x10000000000001 := by linarith [hnearest.low]
      exact_mod_cast hcast
    have hquarter := hclose hrange (by omega)
    rw [hrange] at hquarter hnearest ⊢
    norm_num [fractionRange] at hquarter
    have hdouble : q * 2 ^ (leastPlace + (earlier.succ : Nat)) =
        2 * q * 2 ^ (leastPlace + earlier) := by
      rw [Nat.cast_succ, ← add_assoc, zpow_add_one₀ two_ne_zero]
      ring
    refine ⟨earlier, 2 * fractionRange, by rw [Nat.succ_mul]; omega, ?_, ?_, .inr ?_⟩
    · rw [hdouble, mul_div_cancel_right₀ _ (hunit _).ne']
      refine ⟨?_, ?_, .inl (by decide)⟩
      · norm_num [fractionRange]
        linarith
      · norm_num [fractionRange]
        linarith
    · rw [hdouble, zpow_add₀ two_ne_zero 53]
      refine mul_lt_mul_of_pos_right ?_ (hunit _)
      norm_num
      linarith
    · rw [hdouble, zpow_add₀ two_ne_zero 52]
      refine mul_le_mul_of_nonneg_right ?_ (hunit _).le
      norm_num
      linarith

/-! ## The search -/

/-- A point that is chosen lies in the interval. -/
theorem Interval.holds_of_choose {interval : Interval} {tie : Tie} {grid den count : Nat}
    (hchoose : interval.choose tie grid den = some count) :
    interval.holds (count * grid) den = true := by
  unfold choose at hchoose
  cases tie <;> simp only at hchoose <;> split_ifs at hchoose <;> simp_all

/-- A grid on which no point is found is as coarse as the interval is wide. -/
theorem Interval.le_grid_of_choose_eq_none {interval : Interval} {tie : Tie} {grid den : Nat}
    (hgrid : 0 < grid) (hden : 0 < den) (hlow : interval.low < interval.middle)
    (hhigh : interval.middle < interval.high) (hchoose : interval.choose tie grid den = none) :
    interval.high * den ≤ interval.low * den + grid := by
  have hbelow := Nat.div_mul_le_self (interval.middle * den) grid
  have habove := Nat.lt_div_mul_add (a := interval.middle * den) hgrid
  have hlowScaled := Nat.mul_le_mul_right den hlow.le
  have hhighScaled := Nat.mul_le_mul_right den (Nat.succ_le_of_lt hhigh)
  rw [Nat.succ_mul] at hhighScaled
  unfold choose at hchoose
  generalize interval.middle * den / grid = below at *
  have hneither : interval.holds (below * grid) den = false ∧
      interval.holds ((below + 1) * grid) den = false := by
    cases tie <;> simp only at hchoose <;> split_ifs at hchoose <;> simp_all
  rw [holds, holds, Nat.succ_mul] at hneither
  cases hclosed : interval.closed <;>
    simp only [hclosed, if_true, Bool.false_eq_true, if_false, Bool.and_eq_false_iff,
      decide_eq_false_iff_not] at hneither <;> omega

/-- A search stays on the grids from its first one down to finer ones, and a number other than zero
that it finds lies in the interval. -/
theorem searchGrid_spec (tie : Tie) (interval : Interval) (place : Int) (fuel : Nat)
    (first : Int) :
    let point := searchGrid tie interval place fuel first
    (first - fuel ≤ point.exponent ∧ point.exponent ≤ first) ∧
      (point.count ≠ 0 → interval.holds
        (point.count * (10 ^ point.exponent.toNat * 2 ^ (2 - place).toNat))
        (10 ^ (-point.exponent).toNat * 2 ^ (place - 2).toNat) = true) := by
  induction fuel generalizing first with
  | zero =>
    rw [searchGrid]
    exact ⟨⟨by simp, le_rfl⟩, fun hcount => absurd rfl hcount⟩
  | succ fuel ih =>
    rw [searchGrid]
    cases hchoose : interval.choose tie (10 ^ first.toNat * 2 ^ (2 - place).toNat)
        (10 ^ (-first).toNat * 2 ^ (place - 2).toNat) with
    | some count =>
      refine ⟨⟨?_, le_rfl⟩, fun _ => Interval.holds_of_choose hchoose⟩
      push_cast
      omega
    | none =>
      obtain ⟨⟨hlow, hhigh⟩, hholds⟩ := ih (first - 1)
      refine ⟨⟨?_, hhigh.trans (by omega)⟩, hholds⟩
      push_cast at hlow ⊢
      omega

/-- A search goes on to a finer grid only where the grid before is as coarse as the interval is wide. -/
theorem searchGrid_coarse (tie : Tie) {interval : Interval} (hlow : interval.low < interval.middle)
    (hhigh : interval.middle < interval.high) (place : Int) (fuel : Nat) (first : Int) :
    let next := (searchGrid tie interval place fuel first).exponent + 1
    next = first + 1 ∨
      interval.high * (10 ^ (-next).toNat * 2 ^ (place - 2).toNat) ≤
        interval.low * (10 ^ (-next).toNat * 2 ^ (place - 2).toNat) +
          10 ^ next.toNat * 2 ^ (2 - place).toNat := by
  induction fuel generalizing first with
  | zero => exact .inl rfl
  | succ fuel ih =>
    rw [searchGrid]
    cases hchoose : interval.choose tie (10 ^ first.toNat * 2 ^ (2 - place).toNat)
        (10 ^ (-first).toNat * 2 ^ (place - 2).toNat) with
    | some count => exact .inl rfl
    | none =>
      refine .inr ?_
      rcases ih (first - 1) with hnext | hcoarse
      · dsimp only
        rw [hnext, sub_add_cancel]
        exact Interval.le_grid_of_choose_eq_none (by positivity) (by positivity) hlow hhigh hchoose
      · exact hcoarse

/-- A grid, measured in quarters of a unit of the last place. -/
theorem grid_eq (count : Nat) (exponent place : Int) :
    ((count * (10 ^ exponent.toNat * 2 ^ (2 - place).toNat) : Nat) : ℚ) /
        (10 ^ (-exponent).toNat * 2 ^ (place - 2).toNat : Nat) / 4 * 2 ^ place =
      count * 10 ^ exponent := by
  have hten := zpow_eq_div 10 (by decide) exponent
  have htwo := zpow_eq_div 2 two_ne_zero (2 - place)
  rw [neg_sub] at htwo
  simp only [Nat.pow_eq, Nat.cast_ofNat] at hten htwo
  have hunit : (2 : ℚ) ^ place = 4 / 2 ^ (2 - place) := by
    rw [eq_div_iff (zpow_pos two_pos _).ne', ← zpow_add₀ two_ne_zero, add_sub_cancel]
    norm_num
  rw [hunit, hten, htwo]
  push_cast
  field_simp

/-- The number that the shortest digits of a finite double stand for is rounded to this double. -/
theorem roundsTo_shortest (tie : Tie) (hfinite : x.isFinite = true) (hzero : x.isZero = false) :
    RoundsTo ((shortest tie x).count * 10 ^ (shortest tie x).exponent) x.sizeBits := by
  have hcount := shortest_count_ne_zero tie hfinite hzero
  have hholds := (searchGrid_spec tie _ _ _ _).2 hcount
  have hrounds := roundsTo_of_holds hzero (by positivity) hholds
  rwa [grid_eq] at hrounds

/-- The first grid of a search is no finer than the number. -/
theorem le_coarsestGrid {significand : Nat} {place : Int} (hpositive : 0 < significand)
    (hbound : significand < 2 ^ 53) (hleast : leastPlace ≤ place) (hmost : place ≤ 971) :
    ((significand : ℚ) + 1 / 2) * 2 ^ place ≤ 10 ^ coarsestGrid significand place := by
  have hall : (List.range 2100).all (fun n =>
      let size : Int := n + leastPlace
      let exponent := size * 30103 / 100000 + 2
      decide (2 ^ (size + 1).toNat * 10 ^ (-exponent).toNat ≤
        10 ^ exponent.toNat * 2 ^ (-(size + 1)).toNat)) = true := by
    decide +kernel
  have hlog : significand.log2 < 53 := (Nat.log2_lt hpositive.ne').2 hbound
  have hnext : (significand : ℚ) + 1 ≤ 2 ^ (significand.log2 + 1) := by
    exact_mod_cast Nat.succ_le_of_lt Nat.lt_log2_self
  obtain ⟨n, hn⟩ : ∃ n : Nat, (significand.log2 : Int) + place = n + leastPlace :=
    ⟨(significand.log2 + place - leastPlace).toNat, by omega⟩
  have hrange : n ∈ List.range 2100 := List.mem_range.2 (by simp only [leastPlace] at *; omega)
  have hone : 2 ^ ((significand.log2 : Int) + place + 1).toNat *
      10 ^ (-coarsestGrid significand place).toNat ≤
      10 ^ (coarsestGrid significand place).toNat *
        2 ^ (-((significand.log2 : Int) + place + 1)).toNat := by
    rw [coarsestGrid, hn]
    exact of_decide_eq_true (List.all_eq_true.1 hall n hrange)
  have htwo := zpow_eq_div 2 two_ne_zero (significand.log2 + place + 1)
  have hten := zpow_eq_div 10 (by decide) (coarsestGrid significand place)
  simp only [Nat.pow_eq, Nat.cast_ofNat] at htwo hten
  calc ((significand : ℚ) + 1 / 2) * 2 ^ place
      ≤ 2 ^ (significand.log2 + 1) * 2 ^ place :=
        mul_le_mul_of_nonneg_right (by linarith) (zpow_pos two_pos _).le
    _ = 2 ^ ((significand.log2 : Int) + place + 1) := by
        have hexponent : (significand.log2 : Int) + place + 1 =
            (significand.log2 + 1 : Nat) + place := by omega
        rw [hexponent, zpow_add₀ two_ne_zero, zpow_natCast]
    _ ≤ 10 ^ coarsestGrid significand place := by
        refine htwo.trans_le (le_of_le_of_eq ?_ hten.symm)
        refine (div_le_div_iff₀ (by positivity) (by positivity)).2 ?_
        exact_mod_cast hone

/-- Shortest digits are at most eighteen. -/
theorem shortest_count_lt (tie : Tie) (hfinite : x.isFinite = true) (hzero : x.isZero = false) :
    (shortest tie x).count < 10 ^ 18 := by
  obtain ⟨hpositive, hbound⟩ := significand_bounds hzero
  obtain ⟨hleast, hmost⟩ := place_bounds hfinite
  obtain ⟨-, hlow, hhigh, hwide⟩ := Interval.around_spec hpositive x.place
  have hunit : (0 : ℚ) < 2 ^ x.place := zpow_pos two_pos _
  have hcount := shortest_count_ne_zero tie hfinite hzero
  have hholds := (searchGrid_spec tie _ _ _ _).2 hcount
  -- The number that was found is at most half a unit above the double.
  have hnumber : ((shortest tie x).count : ℚ) * 10 ^ (shortest tie x).exponent ≤
      (x.significand + 1 / 2) * 2 ^ x.place := by
    have hnearest := (Interval.bounds_of_holds (by positivity) hpositive hholds).1.high
    have hscaled := mul_le_mul_of_nonneg_right hnearest hunit.le
    rwa [grid_eq] at hscaled
  have hgrid : (0 : ℚ) < 10 ^ (shortest tie x).exponent := zpow_pos (by norm_num) _
  suffices hfew : ((shortest tie x).count : ℚ) < 10 ^ 18 by exact_mod_cast hfew
  rcases searchGrid_coarse tie hlow hhigh x.place 24 (coarsestGrid x.significand x.place) with
    hfirst | hcoarse
  · have hexponent : (shortest tie x).exponent = coarsestGrid x.significand x.place :=
      add_right_cancel hfirst
    have hle := le_coarsestGrid hpositive hbound hleast hmost
    rw [← hexponent] at hle
    have hone : ((shortest tie x).count : ℚ) ≤ 1 :=
      le_of_mul_le_mul_right ((hnumber.trans hle).trans_eq (one_mul _).symm) hgrid
    exact hone.trans_lt (by norm_num)
  · -- On the grid before, a step is at least three quarters of a unit.
    have hstep : (3 : ℚ) / 4 * 2 ^ x.place ≤ 10 ^ ((shortest tie x).exponent + 1) := by
      have hscaled := grid_eq 1 ((shortest tie x).exponent + 1) x.place
      rw [Nat.cast_one, one_mul, one_mul] at hscaled
      have hwidth := Nat.mul_le_mul_right (10 ^ (-((shortest tie x).exponent + 1)).toNat *
        2 ^ (x.place - 2).toNat) hwide
      rw [Nat.add_mul] at hwidth
      have hthree := Nat.le_of_add_le_add_left (hwidth.trans hcoarse)
      rw [← hscaled]
      refine mul_le_mul_of_nonneg_right (div_le_div_of_nonneg_right ?_ (by norm_num)) hunit.le
      rw [le_div_iff₀ (by positivity)]
      exact_mod_cast hthree
    have hsignificand : (x.significand : ℚ) + 1 / 2 ≤ 2 ^ 53 := by
      have hcast : (x.significand : ℚ) + 1 ≤ 2 ^ 53 := by exact_mod_cast hbound
      linarith
    have htotal := hnumber.trans (mul_le_mul_of_nonneg_right hsignificand hunit.le)
    rw [zpow_add_one₀ (by norm_num)] at hstep
    by_contra hmany
    have hlarge := mul_le_mul_of_nonneg_right (not_lt.1 hmany) hgrid.le
    linarith

/-- The places of shortest digits. -/
theorem shortest_exponent_bounds (tie : Tie) (hfinite : x.isFinite = true)
    (hzero : x.isZero = false) :
    -400 ≤ (shortest tie x).exponent ∧ (shortest tie x).exponent ≤ 400 := by
  obtain ⟨hpositive, hbound⟩ := significand_bounds hzero
  obtain ⟨hleast, hmost⟩ := place_bounds hfinite
  have hlog : x.significand.log2 < 53 := (Nat.log2_lt hpositive.ne').2 hbound
  obtain ⟨⟨hlow, hhigh⟩, -⟩ := searchGrid_spec tie (Interval.around x.significand x.place) x.place
    24 (coarsestGrid x.significand x.place)
  simp only [coarsestGrid, leastPlace] at hlow hhigh hleast
  rw [shortest, coarsestGrid]
  omega

end RegionGossip.Binary64
