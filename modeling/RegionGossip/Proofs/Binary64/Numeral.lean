import Mathlib.Tactic.Positivity
import Mathlib.Tactic.SplitIfs
import RegionGossip.Binary64.Text
import RegionGossip.Proofs.Json.Numeral

/-!
# The numerals of doubles are regular

The search for the shortest digits ends before its fuel does: seventeen digits are enough for every
finite double, and the grid of the last attempt is finer than a quarter of the last place. So the
digits that are found do not begin with a zero, and whatever layout they are put into gives a
numeral in regular form.
-/

namespace RegionGossip

namespace Binary64

/-! ## The search finds digits -/

/-- An interval that does not reach down to zero holds no zero. -/
theorem Interval.holds_zero {interval : Interval} {den : Nat} (hlow : 0 < interval.low)
    (hden : 0 < den) : interval.holds 0 den = false := by
  have hpositive := Nat.mul_pos hlow hden
  rw [holds]
  split
  · simp
    omega
  · simp

/-- A point that is chosen above zero is no zero. -/
theorem Interval.choose_ne_zero {interval : Interval} {tie : Tie} {grid den count : Nat}
    (hlow : 0 < interval.low) (hden : 0 < den)
    (hchoose : interval.choose tie grid den = some count) : count ≠ 0 := by
  have hzero := holds_zero hlow hden
  rintro rfl
  unfold choose at hchoose
  generalize hbelow : interval.middle * den / grid = below at hchoose
  have hbelowHolds : below = 0 → interval.holds (below * grid) den = false := by
    rintro rfl
    rwa [Nat.zero_mul]
  cases tie <;> simp only at hchoose <;> split_ifs at hchoose <;> simp_all

/-- On a grid finer than a quarter, the point below the middle lies in the interval. -/
theorem Interval.choose_isSome {interval : Interval} {tie : Tie} {grid den : Nat}
    (hgrid : 0 < grid) (hfine : grid < den) (hlow : interval.low < interval.middle)
    (hhigh : interval.middle < interval.high) : (interval.choose tie grid den).isSome = true := by
  have hden : 0 < den := Nat.lt_trans hgrid hfine
  have hbelow : interval.holds (interval.middle * den / grid * grid) den = true := by
    have hle := Nat.div_mul_le_self (interval.middle * den) grid
    have hlt := Nat.lt_div_mul_add (a := interval.middle * den) hgrid
    have hlowStep := Nat.mul_le_mul_right den (Nat.succ_le_of_lt hlow)
    have hhighStep := Nat.mul_lt_mul_of_pos_right hhigh hden
    rw [Nat.succ_mul] at hlowStep
    rw [holds]
    split <;> (simp; omega)
  unfold choose
  cases tie <;> simp only [hbelow, Bool.true_and, if_true] <;> split_ifs <;> rfl

/-- Whether the grid of a power of ten is finer than a quarter of the last place. -/
def IsFine (place exponent : Int) : Prop :=
  10 ^ exponent.toNat * 2 ^ (2 - place).toNat < 10 ^ (-exponent).toNat * 2 ^ (place - 2).toNat

/-- A search that comes to a fine grid finds a number other than zero. -/
theorem searchGrid_count_ne_zero {tie : Tie} {interval : Interval} {place : Int}
    (hpositive : 0 < interval.low) (hlow : interval.low < interval.middle)
    (hhigh : interval.middle < interval.high) (fuel : Nat) (exponent : Int)
    (hfine : ∃ steps < fuel, IsFine place (exponent - steps)) :
    (searchGrid tie interval place fuel exponent).count ≠ 0 := by
  induction fuel generalizing exponent with
  | zero =>
    obtain ⟨steps, hsteps, -⟩ := hfine
    exact absurd hsteps (Nat.not_lt_zero _)
  | succ fuel ih =>
    have hgrid : 0 < 10 ^ exponent.toNat * 2 ^ (2 - place).toNat := by positivity
    have hden : 0 < 10 ^ (-exponent).toNat * 2 ^ (place - 2).toNat := by positivity
    rw [searchGrid]
    cases hchoose : interval.choose tie (10 ^ exponent.toNat * 2 ^ (2 - place).toNat)
        (10 ^ (-exponent).toNat * 2 ^ (place - 2).toNat) with
    | some count => exact Interval.choose_ne_zero hpositive hden hchoose
    | none =>
      obtain ⟨steps, hsteps, hfine⟩ := hfine
      cases steps with
      | zero =>
        have hsome : (none : Option Nat).isSome = true :=
          hchoose ▸ Interval.choose_isSome hgrid (by simpa [IsFine] using hfine) hlow hhigh
        exact absurd hsome (by simp)
      | succ steps =>
        refine ih _ ⟨steps, by omega, ?_⟩
        have hstep : exponent - 1 - (steps : Int) = exponent - (steps + 1 : Nat) := by omega
        rwa [hstep]

/-- Twenty-one powers of ten below the size of fifty-three binary digits, the grid is fine at every
place that a finite double has. -/
theorem isFine_of_place {place : Int} (hleast : leastPlace ≤ place) (hmost : place ≤ 971) :
    IsFine place ((52 + place) * 30103 / 100000 - 21) := by
  have hall : (List.range 2046).all (fun n =>
      let place : Int := n + leastPlace
      let exponent := (52 + place) * 30103 / 100000 - 21
      decide (10 ^ exponent.toNat * 2 ^ (2 - place).toNat <
        10 ^ (-exponent).toNat * 2 ^ (place - 2).toNat)) = true := by
    decide +kernel
  obtain ⟨n, rfl⟩ : ∃ n : Nat, place = n + leastPlace :=
    ⟨(place - leastPlace).toNat, by omega⟩
  have hn : n ∈ List.range 2046 := List.mem_range.2 (by simp only [leastPlace] at hmost; omega)
  simpa [IsFine] using List.all_eq_true.1 hall n hn

/-- The significand of a double other than zero is positive and has at most fifty-three binary
digits. -/
theorem significand_bounds {x : Binary64} (hzero : x.isZero = false) :
    0 < x.significand ∧ x.significand < 2 ^ 53 := by
  have hfraction : x.fractionField < fractionRange := Nat.mod_lt _ (by decide)
  simp only [isZero, Bool.and_eq_false_iff, beq_eq_false_iff_ne] at hzero
  simp only [significand, fractionRange] at *
  split <;> omega

/-- The last place of a finite double. -/
theorem place_bounds {x : Binary64} (hfinite : x.isFinite = true) :
    leastPlace ≤ x.place ∧ x.place ≤ 971 := by
  have hexponent : x.exponentField < 2047 := of_decide_eq_true hfinite
  simp only [place, leastPlace]
  split <;> omega

/-- The interval around a significand lies above zero, reaches beyond it on both sides, and is at
least three quarters wide. -/
theorem Interval.around_spec {significand : Nat} (hpositive : 0 < significand) (place : Int) :
    let interval := Interval.around significand place
    0 < interval.low ∧ interval.low < interval.middle ∧ interval.middle < interval.high ∧
      interval.low + 3 ≤ interval.high := by
  simp only [Interval.around]
  split <;> omega

/-- The digits of a finite double other than zero are those of a number other than zero. -/
theorem shortest_count_ne_zero {x : Binary64} (tie : Tie) (hfinite : x.isFinite = true)
    (hzero : x.isZero = false) : (shortest tie x).count ≠ 0 := by
  obtain ⟨hpositive, hbound⟩ := significand_bounds hzero
  obtain ⟨hleast, hmost⟩ := place_bounds hfinite
  have hlog : x.significand.log2 < 53 := (Nat.log2_lt (by omega)).2 hbound
  obtain ⟨hlow, hmiddle, hhigh, -⟩ := Interval.around_spec hpositive x.place
  refine searchGrid_count_ne_zero hlow hmiddle hhigh _ _
    ⟨(coarsestGrid x.significand x.place -
      ((52 + x.place) * 30103 / 100000 - 21)).toNat, ?_, ?_⟩
  · simp only [coarsestGrid]
    omega
  · have hstep : coarsestGrid x.significand x.place -
        ((coarsestGrid x.significand x.place -
          ((52 + x.place) * 30103 / 100000 - 21)).toNat : Int) =
        (52 + x.place) * 30103 / 100000 - 21 := by
      simp only [coarsestGrid]
      omega
    rw [hstep]
    exact isFine_of_place hleast hmost

/-! ## Layouts -/

/-- Digits with more digits behind them are digits. -/
theorem isDigits_append {left right : List Char} (hleft : IsDigits left)
    (hright : ∀ c ∈ right, c.isDigit = true) : IsDigits (left ++ right) := by
  refine ⟨by simp [hleft.1], fun c hc => ?_⟩
  rcases List.mem_append.1 hc with hc | hc
  · exact hleft.2 c hc
  · exact hright c hc

/-- A row of zeros consists of digits. -/
theorem isDigit_of_mem_zeros {count : Nat} {c : Char} (hc : c ∈ List.replicate count '0') :
    c.isDigit = true := by
  rw [List.eq_of_mem_replicate hc]
  decide

/-- The empty row has nothing in it that is no digit. -/
theorem isDigit_of_mem_nil : ∀ c ∈ ([] : List Char), c.isDigit = true :=
  fun _ hc => absurd hc List.not_mem_nil

/-- The fraction of a layout is missing or has digits. -/
theorem Layout.isDigits_fraction (layout : Layout) {digits found : List Char}
    (hdigits : ∀ c ∈ digits, c.isDigit = true) (hfraction : layout.fraction digits = some found) :
    IsDigits found := by
  cases digits with
  | nil =>
    simp only [Layout.fraction] at hfraction
    split at hfraction
    · obtain rfl := Option.some.inj hfraction
      refine ⟨by simp, fun c hc => ?_⟩
      rw [List.mem_singleton.1 hc]
      decide
    · simp at hfraction
  | cons digit rest =>
    obtain rfl : digit :: rest = found := by simpa [Layout.fraction] using hfraction
    exact ⟨by simp, hdigits⟩

variable {digits : List Char} (layout : Layout) (negative : Bool) (exponent : Int)

/-- Digits in place make a regular numeral. -/
theorem Layout.regular_positional (hdigits : IsDigits digits)
    (hhead : digits.head? ≠ some '0') : (layout.positional negative digits exponent).Regular := by
  rw [Layout.positional]
  dsimp only
  split_ifs with hexponent hafter
  · refine ⟨isDigits_append hdigits fun c hc => isDigit_of_mem_zeros hc, .inr ?_, ?_, by simp⟩
    · rwa [List.head?_append_of_ne_nil _ hdigits.1]
    · exact fun found hfound => layout.isDigits_fraction isDigit_of_mem_nil hfound
  · refine ⟨⟨?_, fun c hc => hdigits.2 c (List.mem_of_mem_take hc)⟩, .inr ?_, ?_, by simp⟩
    · simpa using ⟨by omega, hdigits.1⟩
    · rwa [List.head?_take, if_neg (by omega)]
    · exact fun found hfound =>
        layout.isDigits_fraction (fun c hc => hdigits.2 c (List.mem_of_mem_drop hc)) hfound
  · refine ⟨⟨by simp, by simp⟩, .inl rfl, fun found hfound => ?_, by simp⟩
    obtain rfl := Option.some.inj hfound
    refine ⟨by simp [hdigits.1], fun c hc => ?_⟩
    rcases List.mem_append.1 hc with hc | hc
    · exact isDigit_of_mem_zeros hc
    · exact hdigits.2 c hc

/-- One digit before the point makes a regular numeral. -/
theorem Layout.regular_scientific (hdigits : IsDigits digits)
    (hhead : digits.head? ≠ some '0') : (layout.scientific negative digits exponent).Regular := by
  obtain ⟨digit, rest, rfl⟩ := List.exists_cons_of_ne_nil hdigits.1
  refine ⟨⟨by simp [scientific], ?_⟩, .inr (by simpa [scientific] using hhead), ?_, ?_⟩
  · exact fun c hc => hdigits.2 c (List.mem_of_mem_take hc)
  · intro found hfound
    simp only [scientific] at hfound
    split at hfound
    · simp at hfound
    · obtain rfl := Option.some.inj hfound
      refine ⟨?_, fun c hc => hdigits.2 c (List.mem_of_mem_drop hc)⟩
      rintro hnil
      simp_all
  · intro part hpart
    obtain rfl := Option.some.inj hpart
    exact Decimal.isDigits_digits _

/-- The numeral of a finite double is regular in every layout. -/
theorem Layout.regular_numeral {x : Binary64} (hfinite : x.isFinite = true) :
    (layout.numeral x).Regular := by
  rw [Layout.numeral]
  split
  · refine ⟨⟨by simp, by simp⟩, .inl rfl, fun found hfound => ?_, by simp⟩
    exact layout.isDigits_fraction isDigit_of_mem_nil hfound
  · rename_i hzero
    have hcount := shortest_count_ne_zero layout.tie hfinite (by simpa using hzero)
    have hdigits := Decimal.isDigits_digits (shortest layout.tie x).count
    have hhead := Decimal.head?_digits_ne_zero hcount
    dsimp only
    split
    · exact layout.regular_positional _ _ hdigits hhead
    · exact layout.regular_scientific _ _ hdigits hhead

end Binary64

end RegionGossip
