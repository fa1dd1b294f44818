import RegionGossip.Binary64.Read
import RegionGossip.Proofs.Binary64.Arithmetic
import RegionGossip.Proofs.Binary64.Shortest

/-!
# The number that a numeral shows

A numeral stands for the number of all its digits, counted in units of a power of ten that the point
and the exponent give. However the shortest digits of a double are laid out, the numeral stands for
the number that was found.
-/

namespace RegionGossip

namespace Numeral

/-- All digits of a numeral before its exponent, read as one number. -/
def digitsValue (numeral : Numeral) : Nat :=
  Decimal.value (numeral.whole ++ numeral.fraction.getD [])

/-- The power of ten that the last of these digits counts. -/
def lastPlace (numeral : Numeral) : Int :=
  Binary64.exponentOf numeral.exponent - (numeral.fraction.getD []).length

/-- The number that a numeral stands for, without its sign. -/
def size (numeral : Numeral) : ℚ := numeral.digitsValue * 10 ^ numeral.lastPlace

end Numeral

namespace Decimal

/-- Zeros in front do not count. -/
theorem value_zeros_append (zeros : Nat) (row : List Char) :
    value (List.replicate zeros '0' ++ row) = value row := by
  rw [value, Nat.ofDigitChars_append, Nat.ofDigitChars_replicate_zero, Nat.mul_zero, value]

/-- Zeros behind are factors of ten. -/
theorem value_append_zeros (row : List Char) (zeros : Nat) :
    value (row ++ List.replicate zeros '0') = value row * 10 ^ zeros := by
  rw [value, Nat.ofDigitChars_append, Nat.ofDigitChars_replicate_zero, value, Nat.mul_comm]

/-- A number has no more digits than a bound on it. -/
theorem length_digits_le_iff {n bound : Nat} (hbound : 0 < bound) :
    (digits n).length ≤ bound ↔ n < 10 ^ bound :=
  Nat.length_toDigits_le_iff (by decide) hbound

end Decimal

namespace Binary64

variable {x : Binary64} {layout : Layout} {digits : List Char} {exponent : Int}

/-- Only zeros are shown after a whole number. -/
theorem Layout.exists_zeros (layout : Layout) :
    ∃ zeros, (layout.fraction []).getD [] = List.replicate zeros '0' := by
  rw [fraction]
  split
  · exact ⟨1, rfl⟩
  · exact ⟨0, rfl⟩

/-- Digits after a point are shown as they are. -/
theorem Layout.fraction_of_ne_nil (layout : Layout) (hdigits : digits ≠ []) :
    layout.fraction digits = some digits := by
  cases digits with
  | nil => exact absurd rfl hdigits
  | cons digit rest => rfl

/-- Digits in place stand for their number. -/
theorem Layout.size_positional (layout : Layout) (negative : Bool) :
    (layout.positional negative digits exponent).size = Decimal.value digits * 10 ^ exponent := by
  rw [positional]
  dsimp only
  split_ifs with hsigned hafter
  · obtain ⟨zeros, hzeros⟩ := layout.exists_zeros
    obtain ⟨exponent, rfl⟩ := Int.eq_ofNat_of_zero_le hsigned
    rw [Numeral.size, Numeral.digitsValue, Numeral.lastPlace, hzeros, List.append_assoc,
      List.replicate_append_replicate, Decimal.value_append_zeros, List.length_replicate,
      exponentOf]
    push_cast
    rw [mul_assoc, ← zpow_natCast, ← zpow_add₀ (by norm_num)]
    congr 2
    simp
  · have hdrop : digits.drop (digits.length - exponent.natAbs) ≠ [] := by
      rw [Ne, List.drop_eq_nil_iff]
      omega
    rw [Numeral.size, Numeral.digitsValue, Numeral.lastPlace, layout.fraction_of_ne_nil hdrop,
      Option.getD_some, List.take_append_drop, List.length_drop, exponentOf]
    congr 2
    omega
  · rw [Numeral.size, Numeral.digitsValue, Numeral.lastPlace, Option.getD_some,
      ← List.append_assoc, ← List.replicate_one, List.replicate_append_replicate,
      Decimal.value_zeros_append, List.length_append, List.length_replicate, exponentOf]
    congr 2
    omega

/-- The exponent that is written is the one that is read. -/
theorem Layout.exponentOf_scientific (hsign : layout.positiveExponent ≠ .minus) (negative : Bool) :
    exponentOf (layout.scientific negative digits exponent).exponent = exponent := by
  rw [scientific, exponentOf, Decimal.value_digits]
  by_cases hnegative : exponent < 0
  · simp only [if_pos hnegative, if_true]
    omega
  · simp only [if_neg hnegative, if_neg hsign]
    omega

/-- The digits after the first one stand behind the point. -/
theorem Layout.fraction_scientific (layout : Layout) (negative : Bool) :
    (layout.scientific negative digits exponent).fraction.getD [] = digits.drop 1 := by
  rw [scientific]
  dsimp only
  split
  · rename_i hone
    exact (List.drop_eq_nil_of_le hone).symm
  · rfl

/-- Digits with an exponent stand for their number. -/
theorem Layout.size_scientific (hsign : layout.positiveExponent ≠ .minus) (negative : Bool)
    (hdigits : digits ≠ []) :
    (layout.scientific negative digits exponent).size =
      Decimal.value digits * 10 ^ (exponent - (digits.length - 1)) := by
  have hpositive := List.length_pos_iff.2 hdigits
  rw [Numeral.size, Numeral.digitsValue, Numeral.lastPlace, exponentOf_scientific hsign,
    fraction_scientific, List.length_drop]
  show ((Decimal.value (digits.take 1 ++ digits.drop 1) : Nat) : ℚ) * _ = _
  rw [List.take_append_drop]
  congr 2
  omega

/-- The numeral of a finite double stands for the shortest digits. -/
theorem Layout.size_numeral (hsign : layout.positiveExponent ≠ .minus)
    (hzero : x.isZero = false) :
    (layout.numeral x).size =
      (shortest layout.tie x).count * 10 ^ (shortest layout.tie x).exponent := by
  rw [numeral, hzero, if_neg (by simp)]
  dsimp only
  split
  · rw [size_positional, Decimal.value_digits]
  · rw [size_scientific hsign _ (Decimal.isDigits_digits _).1, Decimal.value_digits]
    congr 2
    omega

/-! ## How long a numeral is -/

/-- What a reader asks of a numeral before it gathers all digits in a word: it is not whole, it has
its digits in few places, and they are few. -/
structure IsBrief (numeral : Numeral) : Prop where
  isWhole : numeral.isWhole = false
  digitsValue : numeral.digitsValue < 10 ^ 18
  fraction : (numeral.fraction.getD []).length ≤ 500
  exponent : (exponentOf numeral.exponent).natAbs ≤ 500
  lastPlace : -400 ≤ numeral.lastPlace

/-- A numeral in place is brief where the digits are few and not far away from the point. -/
theorem Layout.isBrief_positional (negative : Bool) {count : Nat} (hcount : count < 10 ^ 18)
    (hlow : -400 ≤ exponent) (hwhole : exponent + (Decimal.digits count).length - 1 < 16) :
    IsBrief (Layout.wire.positional negative (Decimal.digits count) exponent) := by
  have hlength : (Decimal.digits count).length ≤ 18 :=
    (Decimal.length_digits_le_iff (by decide)).2 hcount
  have hdigits := List.length_pos_iff.2 (Decimal.isDigits_digits count).1
  have hnone : (exponentOf none).natAbs ≤ 500 := by decide
  have hpoint : ['0'].length ≤ 500 := by decide
  have hlast : -400 ≤ exponentOf none - ['0'].length := by decide
  rw [positional]
  dsimp only
  split_ifs with hsigned hafter
  · have hvalue : count < 10 ^ (Decimal.digits count).length :=
      (Decimal.length_digits_le_iff hdigits).1 le_rfl
    refine ⟨rfl, ?_, hpoint, hnone, hlast⟩
    show Decimal.value (Decimal.digits count ++ List.replicate exponent.toNat '0' ++
      List.replicate 1 '0') < 10 ^ 18
    rw [List.append_assoc, List.replicate_append_replicate, Decimal.value_append_zeros,
      Decimal.value_digits]
    calc count * 10 ^ (exponent.toNat + 1)
        < 10 ^ (Decimal.digits count).length * 10 ^ (exponent.toNat + 1) :=
          Nat.mul_lt_mul_of_pos_right hvalue (Nat.pow_pos (by decide))
      _ = 10 ^ ((Decimal.digits count).length + (exponent.toNat + 1)) := (Nat.pow_add ..).symm
      _ ≤ 10 ^ 18 := Nat.pow_le_pow_right (by decide) (by omega)
  · have hdrop : (Decimal.digits count).drop ((Decimal.digits count).length - exponent.natAbs) ≠
        [] := by
      rw [Ne, List.drop_eq_nil_iff]
      omega
    rw [Layout.wire.fraction_of_ne_nil hdrop]
    refine ⟨rfl, ?_, ?_, hnone, ?_⟩
    · rwa [Numeral.digitsValue, Option.getD_some, List.take_append_drop, Decimal.value_digits]
    · rw [Option.getD_some, List.length_drop]
      omega
    · rw [Numeral.lastPlace, Option.getD_some, List.length_drop, exponentOf]
      omega
  · refine ⟨rfl, ?_, ?_, hnone, ?_⟩
    · rwa [Numeral.digitsValue, Option.getD_some, ← List.append_assoc, ← List.replicate_one,
        List.replicate_append_replicate, Decimal.value_zeros_append, Decimal.value_digits]
    · rw [Option.getD_some, List.length_append, List.length_replicate]
      omega
    · rw [Numeral.lastPlace, Option.getD_some, List.length_append, List.length_replicate,
        exponentOf]
      omega

/-- A numeral with one digit before the point is brief where the digits are few. -/
theorem Layout.isBrief_scientific (negative : Bool) {count : Nat} (hcount : count < 10 ^ 18)
    (hlow : -400 ≤ exponent) (hhigh : exponent ≤ 400) :
    IsBrief (Layout.wire.scientific negative (Decimal.digits count)
      (exponent + (Decimal.digits count).length - 1)) := by
  have hlength : (Decimal.digits count).length ≤ 18 :=
    (Decimal.length_digits_le_iff (by decide)).2 hcount
  have hdigits := List.length_pos_iff.2 (Decimal.isDigits_digits count).1
  refine ⟨Bool.and_false _, ?_, ?_, ?_, ?_⟩
  · rw [Numeral.digitsValue, fraction_scientific]
    show Decimal.value ((Decimal.digits count).take 1 ++ (Decimal.digits count).drop 1) < 10 ^ 18
    rwa [List.take_append_drop, Decimal.value_digits]
  · rw [fraction_scientific, List.length_drop]
    omega
  · rw [exponentOf_scientific (by decide)]
    omega
  · rw [Numeral.lastPlace, exponentOf_scientific (by decide), fraction_scientific, List.length_drop]
    omega

/-- The numeral of a finite double other than zero is brief on the wire. -/
theorem isBrief_wire_numeral (hfinite : x.isFinite = true) (hzero : x.isZero = false) :
    IsBrief (Layout.wire.numeral x) := by
  have hcount := shortest_count_lt Layout.wire.tie hfinite hzero
  obtain ⟨hlow, hhigh⟩ := shortest_exponent_bounds Layout.wire.tie hfinite hzero
  rw [Layout.numeral, hzero, if_neg (by simp)]
  dsimp only
  generalize shortest Layout.wire.tie x = point at *
  split
  · rename_i hpositional
    refine Layout.isBrief_positional x.isNegative hcount hlow ?_
    simp [Layout.isPositional, Layout.wire] at hpositional
    omega
  · exact Layout.isBrief_scientific x.isNegative hcount hlow hhigh

/-- A numeral has the sign of its double. -/
theorem Layout.negative_numeral (layout : Layout) (x : Binary64) :
    (layout.numeral x).negative = x.isNegative := by
  rw [numeral]
  dsimp only
  split_ifs
  · rfl
  · rw [positional]
    dsimp only
    split_ifs <;> rfl
  · rfl

end Binary64

end RegionGossip
