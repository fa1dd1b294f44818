import RegionGossip.Json.Number
import RegionGossip.Proofs.Binary64.Arithmetic
import RegionGossip.Proofs.Binary64.Nearness

/-!
# What becomes of a word and an exponent

A numeral is read in two roundings, one of its digits and one of their product with a power of ten.
Where both the digits and the power of ten are exact, the result is the double nearest to the
numeral. Where they are not, it is still a finite double, as long as the numeral is not beyond the
largest of them.
-/

namespace RegionGossip.Json

open Binary64 (ofInt RoundsTo Near ofBits ofSize sizeAt leastPlace specialExponent fractionRange)

variable {word bits : Nat} {exponent : Int} {x : Binary64}

/-! ## Words and powers of ten -/

/-- A word becomes the double nearest to it, which is finite and not below zero. -/
theorem ofInt_word (hword : word ≤ maxWord) :
    (ofInt word).isFinite = true ∧ (ofInt word).isNegative = false ∧
      (ofInt word).size ≤ 2 ^ 64 ∧ RoundsTo word (ofInt word).sizeBits := by
  obtain ⟨bits, hrounds⟩ := Binary64.exists_roundsTo word.cast_nonneg
  have hle : (word : ℚ) ≤ 2 ^ 64 := by
    exact_mod_cast hword.trans (by decide)
  obtain ⟨hbits, hsize⟩ := Binary64.bits_lt_of_le_word hrounds hle
  obtain ⟨hfinite, hsign, hsizeBits⟩ := Binary64.ofBits_spec false hbits
  rw [Binary64.ofInt_eq hrounds, Binary64.size, hsizeBits]
  exact ⟨hfinite, hsign, hsize, hrounds⟩

/-- Words become doubles in their order. -/
theorem size_ofInt_mono {less more : Nat} (hle : less ≤ more) (hword : more ≤ maxWord) :
    (ofInt less).size ≤ (ofInt more).size := by
  obtain ⟨-, -, -, hless⟩ := ofInt_word (hle.trans hword)
  obtain ⟨-, -, -, hmore⟩ := ofInt_word hword
  exact Binary64.strictMono_sizeAt.monotone (hless.mono hmore (Nat.cast_le.2 hle))

/-- A word of at most fifty-three binary digits becomes itself. -/
theorem size_ofInt (hword : word ≤ 2 * fractionRange) : (ofInt word).size = word := by
  obtain ⟨bits, hbits⟩ := Binary64.exists_sizeAt_eq hword
  obtain ⟨-, -, -, hrounds⟩ := ofInt_word (hword.trans (by decide))
  rw [← hbits] at hrounds
  rw [Binary64.size, hrounds.unique (Binary64.roundsTo_sizeAt bits), hbits]

/-- A word becomes a double that is near. -/
theorem near_ofInt (hword : word ≤ maxWord) : Near 1 0 word (ofInt word).size := by
  rcases Nat.eq_zero_or_pos word with rfl | hpositive
  · rw [size_ofInt (Nat.zero_le _)]
    exact ⟨by simp, by simp⟩
  · obtain ⟨-, -, -, hrounds⟩ := ofInt_word hword
    have hone : (1 : ℚ) ≤ word := by exact_mod_cast hpositive
    exact hrounds.near_of_le ((zpow_le_one_of_nonpos₀ one_le_two (by decide)).trans hone)

/-- A power of ten in one step becomes a finite double that is not below one. -/
theorem tenTo_spec {exponent : Nat} (hsmall : exponent ≤ 308) :
    (tenTo exponent).isFinite = true ∧ (tenTo exponent).isNegative = false ∧
      (tenTo exponent).isZero = false ∧ 1 ≤ (tenTo exponent).size := by
  have hall : (List.range 309).all (fun exponent => (tenTo exponent).isFinite &&
      !(tenTo exponent).isNegative && !(tenTo exponent).isZero &&
      decide (Binary64.one.sizeBits ≤ (tenTo exponent).sizeBits)) = true := by
    decide +kernel
  have hone := List.all_eq_true.1 hall exponent (List.mem_range.2 (Nat.lt_succ_of_le hsmall))
  simp only [Bool.and_eq_true, Bool.not_eq_true', decide_eq_true_eq] at hone
  obtain ⟨⟨⟨hfinite, hsign⟩, hzero⟩, hle⟩ := hone
  refine ⟨hfinite, hsign, hzero, ?_⟩
  rw [← Binary64.size_one]
  exact Binary64.strictMono_sizeAt.monotone hle

/-- A power of ten in one step becomes a double that is near. -/
theorem near_tenTo {exponent : Nat} (hsmall : exponent ≤ 308) :
    Near 1 0 (10 ^ exponent) (tenTo exponent).size := by
  obtain ⟨hfinite, -, -, -⟩ := tenTo_spec hsmall
  have hone : (1 : ℚ) ≤ 10 ^ exponent := one_le_pow₀ (by norm_num)
  obtain ⟨bits, hrounds⟩ := Binary64.exists_roundsTo (zero_le_one.trans hone)
  have hten : tenTo exponent = ofBits false bits := Binary64.ofDecimal_one_eq hrounds
  rw [hten] at hfinite ⊢
  have hresult := hrounds.sizeBits_ofBits false (Binary64.lt_of_isFinite_ofBits hfinite)
  exact hresult.near_of_le ((zpow_le_one_of_nonpos₀ one_le_two (by decide)).trans hone)

/-- The first powers of ten are exact. -/
theorem size_tenTo {exponent : Nat} (hsmall : exponent ≤ 22) :
    (tenTo exponent).size = 10 ^ exponent := by
  have hall : (List.range 23).all (fun exponent =>
      (tenTo exponent).significand * 2 ^ (tenTo exponent).place.toNat ==
        10 ^ exponent * 2 ^ (-(tenTo exponent).place).toNat) = true := by
    decide +kernel
  have hone := List.all_eq_true.1 hall exponent (List.mem_range.2 (Nat.lt_succ_of_le hsmall))
  rw [beq_iff_eq] at hone
  have hplace := Binary64.zpow_eq_div 2 two_ne_zero (tenTo exponent).place
  simp only [Nat.pow_eq, Nat.cast_ofNat] at hplace
  rw [Binary64.size_eq, hplace, mul_div_assoc', div_eq_iff (by positivity)]
  exact_mod_cast hone

/-! ## Exact operands -/

/-- Where the word and the power of ten are exact, the result is the double nearest to their
product. -/
theorem scaleWord_eq (fuel : Nat) (hword : word ≤ 2 * fractionRange) (hsmall : exponent.natAbs ≤ 22)
    (hrounds : RoundsTo (word * 10 ^ exponent) bits)
    (hbits : bits < specialExponent * fractionRange) :
    scaleWord (fuel + 1) (ofInt word) exponent = some (ofBits false bits) := by
  obtain ⟨hfinite, hsign, -, -⟩ := ofInt_word (hword.trans (by decide))
  obtain ⟨htenFinite, htenSign, htenZero, -⟩ := tenTo_spec (hsmall.trans (by decide))
  rw [scaleWord, if_pos (hsmall.trans (by decide))]
  by_cases hsigned : 0 ≤ exponent
  · have hproduct : (ofInt word).size * (tenTo exponent.natAbs).size = word * 10 ^ exponent := by
      rw [size_ofInt hword, size_tenTo hsmall, ← zpow_natCast, Int.natAbs_of_nonneg hsigned]
    rw [← hproduct] at hrounds
    rw [if_pos hsigned, Binary64.mul_eq hfinite htenFinite hrounds, hsign, htenSign]
    simp [Binary64.isInfinite_eq_false (Binary64.ofBits_spec false hbits).1]
  · have hquotient : (ofInt word).size / (tenTo exponent.natAbs).size = word * 10 ^ exponent := by
      rw [size_ofInt hword, size_tenTo hsmall, ← zpow_natCast, div_eq_mul_inv, ← zpow_neg]
      congr 2
      omega
    rw [← hquotient] at hrounds
    rw [if_neg hsigned, Binary64.div_eq hfinite htenFinite htenZero hrounds, hsign, htenSign]
    rfl

/-! ## Finite results -/

/-- Dividing by a power of ten leaves a number finite and not below zero, and is rounded once. -/
theorem div_tenTo {exponent : Nat} (hsmall : exponent ≤ 308) (hfinite : x.isFinite = true)
    (hsign : x.isNegative = false) (hsize : x.size ≤ 2 ^ 64) :
    (x / tenTo exponent).isFinite = true ∧ (x / tenTo exponent).isNegative = false ∧
      (x / tenTo exponent).size ≤ 2 ^ 64 ∧
      RoundsTo (x.size / (tenTo exponent).size) (x / tenTo exponent).sizeBits := by
  obtain ⟨htenFinite, htenSign, htenZero, hone⟩ := tenTo_spec hsmall
  obtain ⟨bits, hrounds⟩ :=
    Binary64.exists_roundsTo (div_nonneg x.size_nonneg (tenTo exponent).size_nonneg)
  have hle : x.size / (tenTo exponent).size ≤ 2 ^ 64 :=
    (div_le_self x.size_nonneg hone).trans hsize
  obtain ⟨hbits, hbound⟩ := Binary64.bits_lt_of_le_word hrounds hle
  obtain ⟨hresult, hresultSign, hresultBits⟩ := Binary64.ofBits_spec false hbits
  rw [Binary64.div_eq hfinite htenFinite htenZero hrounds, hsign, htenSign]
  refine ⟨hresult, hresultSign, ?_, hrounds.sizeBits_ofBits false hbits⟩
  show sizeAt (ofBits false bits).sizeBits ≤ 2 ^ 64
  rwa [hresultBits]

/-- Half a unit above the largest finite double but one. -/
def greatest : Nat := 0x3ffffffffffffd * 2 ^ 970

/-- A number that is rounded to a finite double other than the largest is no larger. -/
theorem le_greatest {q : ℚ} (hrounds : RoundsTo q bits)
    (hbits : bits + 2 ≤ specialExponent * fractionRange) : q ≤ greatest := by
  obtain ⟨steps, count, rfl, hnearest, hbelow, hfull⟩ := hrounds
  have hgreatest : (greatest : ℚ) = 0x3ffffffffffffd * 2 ^ (970 : Int) := by
    rw [greatest, Nat.cast_mul, Nat.cast_pow, Nat.cast_ofNat, Nat.cast_ofNat, zpow_ofNat]
  rw [hgreatest]
  have hunit : (0 : ℚ) < 2 ^ (970 : Int) := zpow_pos two_pos _
  rcases Nat.lt_trichotomy steps 2045 with hless | rfl | hmore
  · have hpower : (2 : ℚ) ^ (53 + (Binary64.leastPlace + steps)) ≤ 2 ^ (53 + 970 : Int) :=
      zpow_le_zpow_right₀ one_le_two (by rw [Binary64.leastPlace]; omega)
    rw [zpow_add₀ two_ne_zero 53 970] at hpower
    refine hbelow.le.trans (hpower.trans (mul_le_mul_of_nonneg_right ?_ hunit.le))
    norm_num
  · have hcount : count ≤ 2 * fractionRange - 2 := by
      simp only [specialExponent, fractionRange] at hbits ⊢
      omega
    have hcast : (count : ℚ) ≤ 2 ^ 53 - 2 := by
      refine (Nat.cast_le.2 hcount).trans_eq ?_
      norm_num [fractionRange]
    have hhigh := (div_le_iff₀ (zpow_pos two_pos _)).1 hnearest.high
    rw [show Binary64.leastPlace + (2045 : Nat) = 970 + 1 from rfl, zpow_add_one₀ two_ne_zero]
      at hhigh
    calc q ≤ (count + 1 / 2) * (2 ^ (970 : Int) * 2) := hhigh
      _ = (2 * count + 1) * 2 ^ (970 : Int) := by ring
      _ ≤ 0x3ffffffffffffd * 2 ^ (970 : Int) :=
        mul_le_mul_of_nonneg_right (by linarith) hunit.le
  · have hcount := hnearest.range_le (hfull.resolve_left (by omega))
    simp only [specialExponent, fractionRange] at hbits hcount
    omega

/-- The largest word that an exponent takes no further than that. -/
def greatestWord (exponent : Nat) : Nat := min maxWord (greatest / 10 ^ exponent)

/-- The largest words give finite products. -/
theorem isFinite_greatestWord {exponent : Nat} (hsmall : exponent ≤ 308) :
    (ofInt (greatestWord exponent) * tenTo exponent).isFinite = true := by
  have hall : (List.range 309).all (fun exponent =>
      (ofInt (greatestWord exponent) * tenTo exponent).isFinite) = true := by
    decide +kernel
  exact List.all_eq_true.1 hall exponent (List.mem_range.2 (Nat.lt_succ_of_le hsmall))

/-- Multiplying with a power of ten leaves a number finite and not below zero, and is rounded
once. -/
theorem mul_tenTo {exponent : Nat} (hsmall : exponent ≤ 308) (hword : word ≤ maxWord)
    (hbound : word * 10 ^ exponent ≤ greatest) :
    (ofInt word * tenTo exponent).isFinite = true ∧
      (ofInt word * tenTo exponent).isNegative = false ∧
      RoundsTo ((ofInt word).size * (tenTo exponent).size)
        (ofInt word * tenTo exponent).sizeBits := by
  have hgreatest : greatestWord exponent ≤ maxWord := Nat.min_le_left _ _
  have hle : word ≤ greatestWord exponent :=
    Nat.le_min.2 ⟨hword, (Nat.le_div_iff_mul_le (Nat.pow_pos (by decide))).2 hbound⟩
  obtain ⟨hfinite, hsign, -, -⟩ := ofInt_word hword
  obtain ⟨hgreatestFinite, -, -, -⟩ := ofInt_word hgreatest
  obtain ⟨htenFinite, htenSign, -, -⟩ := tenTo_spec hsmall
  have hten := (tenTo exponent).size_nonneg
  obtain ⟨bits, hrounds⟩ := Binary64.exists_roundsTo (mul_nonneg (ofInt word).size_nonneg hten)
  obtain ⟨greatestBits, hgreatestRounds⟩ :=
    Binary64.exists_roundsTo (mul_nonneg (ofInt (greatestWord exponent)).size_nonneg hten)
  have hmono : bits ≤ greatestBits := hrounds.mono hgreatestRounds
    (mul_le_mul_of_nonneg_right (size_ofInt_mono hle hgreatest) hten)
  have hproduct := isFinite_greatestWord hsmall
  rw [Binary64.mul_eq hgreatestFinite htenFinite hgreatestRounds] at hproduct
  have hlt := hmono.trans_lt (Binary64.lt_of_isFinite_ofBits hproduct)
  obtain ⟨hresult, hresultSign, -⟩ := Binary64.ofBits_spec false hlt
  rw [Binary64.mul_eq hfinite htenFinite hrounds, hsign, htenSign]
  exact ⟨hresult, hresultSign, hrounds.sizeBits_ofBits false hlt⟩

/-- A double that a word and an exponent may become: finite, not below zero, and with the bits of a
number a few roundings away from the exact one. -/
structure Scaled (word : Nat) (exponent : Int) (y : Binary64) : Prop where
  isFinite : y.isFinite = true
  isNegative : y.isNegative = false
  near : ∃ r, RoundsTo r y.sizeBits ∧ Near 4 (2 ^ leastPlace / 4) (word * 10 ^ exponent) r

variable {y : Binary64}

/-- A result with the bits of a number that is few roundings away from the exact one. -/
theorem Scaled.of_near {r : ℚ} {roundings : Nat} (hfinite : y.isFinite = true)
    (hsign : y.isNegative = false) (hrounds : RoundsTo r y.sizeBits) (hr : 0 ≤ r)
    (hnear : Near roundings 0 (word * 10 ^ exponent) r) (hfew : roundings ≤ 4) :
    Scaled word exponent y := by
  have hexact : (0 : ℚ) ≤ word * 10 ^ exponent :=
    mul_nonneg (Nat.cast_nonneg _) (zpow_nonneg (by norm_num) _)
  exact ⟨hfinite, hsign, r, hrounds,
    hnear.weaken hexact hr hfew (div_nonneg (zpow_pos two_pos _).le (by norm_num))⟩

/-- Nothing stays nothing, whatever the exponent is. -/
theorem scaled_zero (exponent : Int) : Scaled 0 exponent (ofInt (0 : Nat)) := by
  obtain ⟨hfinite, hsign, -, hrounds⟩ := ofInt_word (Nat.zero_le maxWord)
  exact .of_near hfinite hsign hrounds (Nat.cast_nonneg _) (⟨by simp, by simp⟩ : Near 0 0 _ _)
    (Nat.zero_le 4)

/-- An exponent that is not below zero takes one multiplication. -/
theorem exists_scaleWord_of_nonneg (fuel : Nat) (hword : word ≤ maxWord) (hsigned : 0 ≤ exponent)
    (hbound : (word : ℚ) * 10 ^ exponent ≤ greatest) :
    ∃ y, scaleWord (fuel + 1) (ofInt word) exponent = some y ∧ Scaled word exponent y := by
  obtain ⟨exponent, rfl⟩ := Int.eq_ofNat_of_zero_le hsigned
  have hproduct : word * 10 ^ exponent ≤ greatest := by
    rw [zpow_natCast] at hbound
    exact_mod_cast hbound
  rw [scaleWord, Int.natAbs_natCast]
  by_cases hsmall : exponent ≤ 308
  · obtain ⟨hresult, hresultSign, hresultRounds⟩ := mul_tenTo hsmall hword hproduct
    have hsize := (ofInt word).size_nonneg
    have hten := (tenTo exponent).size_nonneg
    have hnear := (near_ofInt hword).mul (near_tenTo hsmall) (Nat.cast_nonneg _) hsize
      (by positivity) hten
    rw [← zpow_natCast] at hnear
    rw [if_pos hsmall, if_pos hsigned]
    exact ⟨_, by simp [Binary64.isInfinite_eq_false hresult],
      .of_near hresult hresultSign hresultRounds (mul_nonneg hsize hten) hnear (by decide)⟩
  · -- A power of ten that is too large for one step is too large for any word but zero.
    have hpower : greatest < 10 ^ exponent := by
      calc greatest < 10 ^ 309 := by decide +kernel
        _ ≤ 10 ^ exponent := Nat.pow_le_pow_right (by decide) (Nat.lt_of_not_le hsmall)
    have hnothing : word = 0 := by
      by_contra hsome
      exact absurd (hproduct.trans_lt hpower)
        (Nat.not_lt.2 (Nat.le_mul_of_pos_left _ (Nat.pos_of_ne_zero hsome)))
    subst hnothing
    rw [if_neg hsmall, if_pos (by decide)]
    exact ⟨_, rfl, scaled_zero _⟩

/-- Only the word zero becomes zero. -/
theorem eq_zero_of_isZero (hword : word ≤ maxWord) (hzero : (ofInt word).isZero = true) :
    word = 0 := by
  have hlow := (near_ofInt hword).low
  rw [Binary64.size, Binary64.sizeBits_of_isZero hzero, Binary64.sizeAt_zero, add_zero, pow_one]
    at hlow
  have hfactor : (0 : ℚ) < 1 - Binary64.roundoff := by norm_num [Binary64.roundoff]
  have hle : (word : ℚ) ≤ 0 := nonpos_of_mul_nonpos_left hlow hfactor
  exact_mod_cast hle.antisymm (Nat.cast_nonneg _)

/-- A power of ten with a positive exponent becomes a double that is not below two. -/
theorem two_le_size_tenTo {steps : Nat} (hsmall : steps ≤ 308) (hpositive : 0 < steps) :
    2 ≤ (tenTo steps).size := by
  have hlow := (near_tenTo hsmall).low
  have hten : (10 : ℚ) ≤ 10 ^ steps := le_self_pow₀ (by norm_num) hpositive.ne'
  rw [Binary64.roundoff] at hlow
  norm_num at hlow
  linarith

/-- After a division by a power of ten, which may be rounded to the least unit, a further division
brings the result near to the exact number. -/
theorem near_div_div {before steps : Nat} {first : Binary64} (hword : word ≤ maxWord)
    (hbefore : before ≤ 308)
    (hfirst : RoundsTo ((ofInt word).size / (tenTo before).size) first.sizeBits)
    (hsmall : steps ≤ 308) (hpositive : 0 < steps) (hexponent : exponent = -(before + steps : Nat)) :
    Near 4 (2 ^ leastPlace / 4) (word * 10 ^ exponent) (first.size / (tenTo steps).size) := by
  have hleast : (0 : ℚ) < 2 ^ leastPlace := zpow_pos two_pos _
  have hnonneg := (ofInt word).size_nonneg
  have hbeforeSize := zero_lt_one.trans_le (tenTo_spec hbefore).2.2.2
  have htwo := two_le_size_tenTo hsmall hpositive
  have hten : (10 : ℚ) ≤ 10 ^ steps := le_self_pow₀ (by norm_num) hpositive.ne'
  have hexact : (0 : ℚ) ≤ word / 10 ^ before := by positivity
  have hquotient := (near_ofInt hword).div (near_tenTo hbefore) (Nat.cast_nonneg _) hnonneg
    (by positivity) hbeforeSize le_rfl (zero_mul _).ge (zero_mul _).ge
  have hrounded := hquotient.trans (hfirst.near (div_nonneg hnonneg hbeforeSize.le)) le_rfl
    (half_pos hleast).le
  rw [zero_add] at hrounded
  have hpower : (word : ℚ) * 10 ^ exponent = word / 10 ^ before / 10 ^ steps := by
    rw [hexponent, zpow_neg, zpow_natCast, pow_add, div_div, div_eq_mul_inv]
  rw [hpower]
  refine hrounded.div (near_tenTo hsmall) hexact first.size_nonneg (by positivity) (by linarith)
    (half_pos hleast).le ?_ ?_
  · linarith [mul_le_mul_of_nonneg_left hten hleast.le]
  · linarith [mul_le_mul_of_nonneg_left htwo hleast.le]

/-- An exponent below zero takes one division, or two. -/
theorem exists_scaleWord_of_neg (fuel : Nat) (hword : word ≤ maxWord) (hnegative : exponent < 0)
    (hlow : -616 ≤ exponent) :
    ∃ y, scaleWord (fuel + 2) (ofInt word) exponent = some y ∧ Scaled word exponent y := by
  obtain ⟨hfinite, hsign, hsize, -⟩ := ofInt_word hword
  have hnear := near_ofInt hword
  have hnonneg := (ofInt word).size_nonneg
  rw [scaleWord]
  by_cases hsmall : exponent.natAbs ≤ 308
  · obtain ⟨hresult, hresultSign, -, hrounds⟩ := div_tenTo hsmall hfinite hsign hsize
    have hten := zero_lt_one.trans_le (tenTo_spec hsmall).2.2.2
    have hquotient := hnear.div (near_tenTo hsmall) (Nat.cast_nonneg _) hnonneg (by positivity)
      hten le_rfl (zero_mul _).ge (zero_mul _).ge
    have hpower : (word : ℚ) / 10 ^ exponent.natAbs = word * 10 ^ exponent := by
      rw [div_eq_mul_inv, ← zpow_natCast, ← zpow_neg]
      congr 2
      omega
    rw [hpower] at hquotient
    rw [if_pos hsmall, if_neg (by omega)]
    exact ⟨_, rfl, .of_near hresult hresultSign hrounds (div_nonneg hnonneg hten.le) hquotient
      (by decide)⟩
  · rw [if_neg hsmall]
    by_cases hzero : (ofInt word).isZero = true
    · obtain rfl := eq_zero_of_isZero hword hzero
      rw [if_pos hzero]
      exact ⟨_, rfl, scaled_zero exponent⟩
    · obtain ⟨hfirst, hfirstSign, hfirstSize, hfirstRounds⟩ :=
        div_tenTo le_rfl hfinite hsign hsize
      have hsteps : (exponent + 308).natAbs ≤ 308 := by omega
      obtain ⟨hresult, hresultSign, -, hrounds⟩ :=
        div_tenTo hsteps hfirst hfirstSign hfirstSize
      rw [if_neg hzero, if_neg (by omega), scaleWord, if_pos hsteps, if_neg (by omega)]
      exact ⟨_, rfl, hresult, hresultSign, _, hrounds,
        near_div_div hword le_rfl hfirstRounds hsteps (by omega) (by omega)⟩

/-! ## Signs -/

/-- A sign that is put before a number which is not below zero. -/
theorem signed_spec (negative : Bool) (hfinite : x.isFinite = true) (hsign : x.isNegative = false) :
    let signed := if negative then x.negate else x
    signed.isFinite = true ∧ signed.isNegative = negative ∧ signed.sizeBits = x.sizeBits := by
  obtain ⟨hturned, hsize⟩ := x.negate_spec
  cases negative with
  | false => exact ⟨hfinite, hsign, rfl⟩
  | true =>
    refine ⟨?_, by simpa [hsign] using hturned, hsize⟩
    rw [Binary64.isFinite_iff] at hfinite ⊢
    exact hsize.symm ▸ hfinite

/-- With a sign, exact operands give the double nearest to their product. -/
theorem doubleOf_eq (negative : Bool) (hword : word ≤ 2 * fractionRange)
    (hsmall : exponent.natAbs ≤ 22) (hrounds : RoundsTo (word * 10 ^ exponent) bits)
    (hbits : bits < specialExponent * fractionRange) :
    doubleOf negative word exponent = some (ofBits negative bits) := by
  obtain ⟨hfinite, hsign, hsize⟩ := Binary64.ofBits_spec false hbits
  obtain ⟨-, hgivenSign, hgivenSize⟩ := Binary64.ofBits_spec negative hbits
  obtain ⟨-, hsigned, hsignedSize⟩ := signed_spec negative hfinite hsign
  rw [doubleOf, scaleWord_eq 7 hword hsmall hrounds hbits, Option.map_some]
  refine congrArg some (Binary64.eq_of_sizeBits ?_ ?_)
  · rw [hsigned, hgivenSign]
  · rw [hsignedSize, hsize, hgivenSize]

/-- With a sign, a number no larger than the largest double but one gives a finite number of that
sign, with the bits of a number few roundings away. -/
theorem exists_doubleOf (negative : Bool) (hword : word ≤ maxWord) (hlow : -616 ≤ exponent)
    (hbound : (word : ℚ) * 10 ^ exponent ≤ greatest) :
    ∃ y, doubleOf negative word exponent = some y ∧ y.isFinite = true ∧
      y.isNegative = negative ∧
      ∃ r, RoundsTo r y.sizeBits ∧ Near 4 (2 ^ leastPlace / 4) (word * 10 ^ exponent) r := by
  obtain ⟨x, hscaled, hx⟩ :
      ∃ x, scaleWord 8 (ofInt word) exponent = some x ∧ Scaled word exponent x := by
    rcases lt_or_ge exponent 0 with hnegative | hsigned
    · exact exists_scaleWord_of_neg 6 hword hnegative hlow
    · exact exists_scaleWord_of_nonneg 7 hword hsigned hbound
  obtain ⟨hfinite, hsigned, hsize⟩ := signed_spec negative hx.isFinite hx.isNegative
  rw [doubleOf, hscaled]
  exact ⟨_, rfl, hfinite, hsigned, hsize.symm ▸ hx.near⟩

end RegionGossip.Json
