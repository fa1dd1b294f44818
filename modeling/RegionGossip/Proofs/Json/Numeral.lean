import RegionGossip.Json.Lexer

/-!
# Written numbers are read back

A numeral in its regular form is read back part by part. A number does not tell by itself where it
ends; in a document it is followed by a comma or a closing bracket, or by nothing.
-/

namespace RegionGossip

/-- One or more digits. -/
def IsDigits (row : List Char) : Prop := row ≠ [] ∧ ∀ c ∈ row, c.isDigit = true

/-- A numeral in its regular form: no superfluous zero in front, and at least one digit in every
part that is there. -/
structure Numeral.Regular (numeral : Numeral) : Prop where
  whole : IsDigits numeral.whole
  leading : numeral.whole = ['0'] ∨ numeral.whole.head? ≠ some '0'
  fraction : ∀ digits, numeral.fraction = some digits → IsDigits digits
  exponent : ∀ part, numeral.exponent = some part → IsDigits part.digits

namespace Decimal

/-- Written digits are one or more digits. -/
theorem isDigits_digits (n : Nat) : IsDigits (digits n) :=
  ⟨Nat.toDigits_ne_nil, fun _ hc => isDigit_of_mem_digits hc⟩

/-- More digits never make a number smaller. -/
theorem le_ofDigitChars (row : List Char) (total : Nat) :
    total ≤ Nat.ofDigitChars 10 row total := by
  induction row generalizing total with
  | nil => exact Nat.le_refl _
  | cons c rest ih =>
    have hrest := ih (10 * total + (c.toNat - '0'.toNat))
    rw [Nat.ofDigitChars_cons]
    omega

/-- Only the number zero begins with a zero. -/
theorem head?_digits_ne_zero {n : Nat} (hn : n ≠ 0) : (digits n).head? ≠ some '0' := by
  induction n using Nat.strongRecOn with
  | ind n ih =>
    rw [digits]
    by_cases hsmall : n < 10
    · have hall : ∀ d < 10, d ≠ 0 → Nat.digitChar d ≠ '0' := by decide
      rw [Nat.toDigits_of_lt_base hsmall]
      simpa using hall n hsmall hn
    · have hhead := ih (n / 10) (by omega) (by omega)
      obtain ⟨first, rest, hcons⟩ := List.exists_cons_of_ne_nil (isDigits_digits (n / 10)).1
      rw [hcons] at hhead
      rw [Nat.toDigits_of_base_le (by decide) (by omega), ← digits, hcons]
      exact hhead

end Decimal

/-- The numeral of an integer is regular. -/
theorem Numeral.regular_ofInt (n : Int) : (ofInt n).Regular := by
  refine ⟨Decimal.isDigits_digits _, ?_, by simp [ofInt], by simp [ofInt]⟩
  by_cases hzero : n.natAbs = 0
  · exact .inl (by simp [ofInt, hzero, Decimal.digits])
  · exact .inr (Decimal.head?_digits_ne_zero hzero)

namespace Json

/-- What may follow a number: a comma, a closing bracket or brace, or nothing. -/
def Stops (text : List Char) : Prop := ∀ c ∈ text.head?, c = ',' ∨ c = ']' ∨ c = '\x7d'

/-- The ten digits. -/
theorem mem_digits_of_isDigit {c : Char} (hdigit : c.isDigit = true) :
    c ∈ ['0', '1', '2', '3', '4', '5', '6', '7', '8', '9'] := by
  obtain ⟨hlow, hhigh⟩ : 48 ≤ c.toNat ∧ c.toNat ≤ 57 := by
    simpa [Char.isDigit, UInt32.le_iff_toNat_le] using hdigit
  have hcode : c = Char.ofNat c.toNat := (Char.ofNat_toNat c).symm
  have hcases : c.toNat = 48 ∨ c.toNat = 49 ∨ c.toNat = 50 ∨ c.toNat = 51 ∨ c.toNat = 52 ∨
      c.toNat = 53 ∨ c.toNat = 54 ∨ c.toNat = 55 ∨ c.toNat = 56 ∨ c.toNat = 57 := by omega
  rcases hcases with h | h | h | h | h | h | h | h | h | h <;> rw [hcode, h] <;> decide

/-- The digits in front are taken up to the first character that is none. -/
theorem spanDigits_append {digits text : List Char} (hdigits : ∀ c ∈ digits, c.isDigit = true)
    (hstop : ∀ c ∈ text.head?, c.isDigit = false) :
    spanDigits (digits ++ text) = (digits, text) := by
  have hnone : text.takeWhile Char.isDigit = [] ∧ text.dropWhile Char.isDigit = text := by
    cases text with
    | nil => exact ⟨rfl, rfl⟩
    | cons c rest => simp [hstop c rfl]
  rw [spanDigits, List.takeWhile_append_of_pos hdigits, List.dropWhile_append_of_pos hdigits,
    hnone.1, hnone.2, List.append_nil]

/-- The exponent of a numeral with the letter in front, or nothing. -/
def exponentChars (exponent : Option ExponentPart) : List Char :=
  match exponent with
  | some part => 'e' :: (part.sign.chars ++ part.digits)
  | none => []

/-- The fraction of a numeral with the point in front, or nothing. -/
def fractionChars (fraction : Option (List Char)) : List Char :=
  match fraction with
  | some digits => '.' :: digits
  | none => []

/-- What stops a number is no digit. -/
theorem Stops.isDigit_eq_false {text : List Char} (hstops : Stops text) :
    ∀ c ∈ text.head?, c.isDigit = false := by
  intro c hc
  rcases hstops c hc with rfl | rfl | rfl <;> decide

/-- The digits of an exponent are read back. -/
theorem scanExponentDigits_append {digits text : List Char} (sign : ExponentSign)
    (hdigits : IsDigits digits) (hstops : Stops text) :
    scanExponentDigits sign (digits ++ text) = some (some ⟨sign, digits⟩, text) := by
  obtain ⟨hne, hall⟩ := hdigits
  rw [scanExponentDigits, spanDigits_append hall hstops.isDigit_eq_false]
  cases digits with
  | nil => exact absurd rfl hne
  | cons digit rest => rfl

/-- The exponent of a numeral is read back. -/
theorem scanExponent_append {exponent : Option ExponentPart} {text : List Char}
    (hdigits : ∀ part, exponent = some part → IsDigits part.digits) (hstops : Stops text) :
    scanExponent (exponentChars exponent ++ text) = some (exponent, text) := by
  cases exponent with
  | none =>
    cases text with
    | nil => rfl
    | cons c rest => rcases hstops c rfl with rfl | rfl | rfl <;> rfl
  | some part =>
    obtain ⟨sign, digits⟩ := part
    have hpart : IsDigits digits := hdigits _ rfl
    have hscan (sign : ExponentSign) := scanExponentDigits_append sign hpart hstops
    cases sign with
    | plus => exact hscan .plus
    | minus => exact hscan .minus
    | plain =>
      -- without a sign the first digit has to be told from one
      obtain ⟨digit, rest, rfl⟩ := List.exists_cons_of_ne_nil hpart.1
      have hplain : scanSignedExponent (digit :: rest ++ text) =
          scanExponentDigits .plain (digit :: rest ++ text) := by
        have hdigit := mem_digits_of_isDigit (hpart.2 digit List.mem_cons_self)
        simp only [List.mem_cons, List.not_mem_nil, or_false] at hdigit
        rcases hdigit with rfl | rfl | rfl | rfl | rfl | rfl | rfl | rfl | rfl | rfl <;> rfl
      exact hplain.trans (hscan .plain)

/-- No digit follows the whole part or the fraction of a numeral. -/
theorem isDigit_head?_exponentChars (exponent : Option ExponentPart) {text : List Char}
    (hstops : Stops text) : ∀ c ∈ (exponentChars exponent ++ text).head?, c.isDigit = false := by
  cases exponent with
  | none => exact hstops.isDigit_eq_false
  | some part =>
    intro c hc
    obtain rfl : 'e' = c := by simpa [exponentChars] using hc
    decide

/-- The fraction of a numeral is read back. -/
theorem scanFraction_append {fraction : Option (List Char)} (exponent : Option ExponentPart)
    {text : List Char} (hdigits : ∀ digits, fraction = some digits → IsDigits digits)
    (hstops : Stops text) :
    scanFraction (fractionChars fraction ++ (exponentChars exponent ++ text)) =
      some (fraction, exponentChars exponent ++ text) := by
  have hnext := isDigit_head?_exponentChars exponent hstops
  cases fraction with
  | none =>
    cases exponent with
    | some part => rfl
    | none =>
      cases text with
      | nil => rfl
      | cons c rest => rcases hstops c rfl with rfl | rfl | rfl <;> rfl
  | some digits =>
    obtain ⟨hne, hall⟩ := hdigits digits rfl
    show scanFraction ('.' :: (digits ++ (exponentChars exponent ++ text))) = _
    rw [scanFraction, spanDigits_append hall hnext]
    cases digits with
    | nil => exact absurd rfl hne
    | cons digit rest => rfl

/-- The whole part of a numeral is read back. -/
theorem scanWhole_append {whole text : List Char} (hdigits : IsDigits whole)
    (hleading : whole = ['0'] ∨ whole.head? ≠ some '0')
    (hnext : ∀ c ∈ text.head?, c.isDigit = false) :
    scanWhole (whole ++ text) = some (whole, text) := by
  rcases hleading with rfl | hleading
  · rfl
  · obtain ⟨digit, rest, rfl⟩ := List.exists_cons_of_ne_nil hdigits.1
    have hspan := spanDigits_append hdigits.2 hnext
    have hzero : digit ≠ '0' := by simpa using hleading
    rw [List.cons_append] at hspan ⊢
    rw [scanWhole.eq_2 _ fun rest heq => hzero (List.cons.inj heq).1, hspan]

/-- A numeral after its sign is read back. -/
theorem scanUnsigned_append {numeral : Numeral} (hregular : numeral.Regular) {text : List Char}
    (hstops : Stops text) :
    scanUnsigned numeral.negative (numeral.whole ++
        (fractionChars numeral.fraction ++ (exponentChars numeral.exponent ++ text))) =
      some (numeral, text) := by
  have hexponent := isDigit_head?_exponentChars numeral.exponent hstops
  have hfraction : ∀ c ∈ (fractionChars numeral.fraction ++
      (exponentChars numeral.exponent ++ text)).head?, c.isDigit = false := by
    cases hpart : numeral.fraction with
    | none => simpa [fractionChars] using hexponent
    | some digits =>
      intro c hc
      obtain rfl : '.' = c := by simpa [fractionChars] using hc
      decide
  simp [scanUnsigned, scanWhole_append hregular.whole hregular.leading hfraction,
    scanFraction_append numeral.exponent hregular.fraction hstops,
    scanExponent_append hregular.exponent hstops]

/-- The characters of a numeral are those of its parts. -/
theorem chars_numeral (numeral : Numeral) (text : List Char) :
    numeral.chars ++ text = (if numeral.negative then ['-'] else []) ++ (numeral.whole ++
      (fractionChars numeral.fraction ++ (exponentChars numeral.exponent ++ text))) := by
  obtain ⟨negative, whole, fraction, exponent⟩ := numeral
  cases fraction <;> cases exponent <;> simp [Numeral.chars, fractionChars, exponentChars]

/-- A written number is the token that is read. -/
theorem scanToken_number {numeral : Numeral} (hregular : numeral.Regular) {text : List Char}
    (hstops : Stops text) :
    scanToken ((Token.number numeral).chars ++ text) = some (.number numeral, text) := by
  have hscan := scanUnsigned_append hregular hstops
  show scanToken (numeral.chars ++ text) = _
  rw [chars_numeral]
  cases hsign : numeral.negative with
  | true =>
    rw [hsign] at hscan
    have hminus (row : List Char) : scanToken ('-' :: row) =
      (scanUnsigned true row).map fun scanned => (.number scanned.1, scanned.2) := rfl
    simp [hminus, hscan]
  | false =>
    rw [hsign] at hscan
    obtain ⟨digit, rest, hwhole⟩ := List.exists_cons_of_ne_nil hregular.whole.1
    have hdigit := mem_digits_of_isDigit (hregular.whole.2 digit (hwhole ▸ List.mem_cons_self))
    have hnumber (row : List Char) : scanToken (digit :: row) =
        (scanUnsigned false (digit :: row)).map fun scanned => (.number scanned.1, scanned.2) := by
      simp only [List.mem_cons, List.not_mem_nil, or_false] at hdigit
      rcases hdigit with rfl | rfl | rfl | rfl | rfl | rfl | rfl | rfl | rfl | rfl <;> rfl
    rw [hwhole, List.cons_append] at hscan
    simp [hwhole, hnumber, hscan]

end Json

end RegionGossip
