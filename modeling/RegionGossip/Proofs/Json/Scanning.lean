import RegionGossip.Proofs.Json.Lexing

/-!
# What a scanner takes

A scanner takes some characters from the front of a text and leaves the others. It would take the
same ones whatever stood behind them, except that a number ends only where its last digit is not
followed by more of it. No control character is part of a token. So a text that is cut between two
tokens has the tokens of its two parts, and none of a text with a control character in it other
than white space.
-/

namespace RegionGossip.Json

variable {α : Type} {row rest : List Char}

/-- A scanner takes these characters from the front and gives a value, whenever they are followed by
a given character, or by none. -/
structure Takes (scan : List Char → Option (α × List Char)) (front : List Char) (value : α)
    (next : Option Char) : Prop where
  printable : ∀ c ∈ front, 32 ≤ c.toNat
  scan_append : ∀ {more : List Char}, more.head? = next → scan (front ++ more) = some (value, more)

/-- A scanner takes what is missing in front of the rest. -/
def TakesUpTo (scan : List Char → Option (α × List Char)) (row rest : List Char) (value : α) :
    Prop :=
  ∃ front, row = front ++ rest ∧ Takes scan front value rest.head?

namespace TakesUpTo

variable {scan inner : List Char → Option (α × List Char)} {value : α}

/-- A scanner that looks at one character only, and goes on after it like another one. -/
theorem cons {c : Char} (hc : 32 ≤ c.toNat) (hinner : TakesUpTo inner row rest value)
    (hscan : ∀ later, scan (c :: later) = inner later) : TakesUpTo scan (c :: row) rest value := by
  obtain ⟨front, rfl, htakes⟩ := hinner
  refine ⟨c :: front, rfl, ?_, fun hhead => ?_⟩
  · simpa [hc] using htakes.printable
  · rw [List.cons_append, hscan, htakes.scan_append hhead]

/-- A scanner that does the same as another one where a text begins like this one. -/
theorem congr (hinner : TakesUpTo inner row rest value)
    (hscan : ∀ later : List Char, later.head? = row.head? → scan later = inner later) :
    TakesUpTo scan row rest value := by
  obtain ⟨front, rfl, htakes⟩ := hinner
  refine ⟨front, rfl, htakes.printable, fun {more} hhead => ?_⟩
  rw [hscan _ (by rw [List.head?_append, List.head?_append, hhead]), htakes.scan_append hhead]

/-- A scanner takes nothing where a text begins like this one. -/
theorem nothing
    (hscan : ∀ later : List Char, later.head? = row.head? → scan later = some (value, later)) :
    TakesUpTo scan row row value :=
  ⟨[], rfl, by simp, fun hhead => hscan _ hhead⟩

end TakesUpTo

/-- A digit is no control character. -/
theorem printable_of_isDigit {c : Char} (hdigit : c.isDigit = true) : 32 ≤ c.toNat := by
  obtain ⟨hlow, -⟩ : 48 ≤ c.toNat ∧ c.toNat ≤ 57 := by
    simpa [Char.isDigit, UInt32.le_iff_toNat_le] using hdigit
  omega

/-- A text that begins with another character than this one. -/
theorem ne_cons_of_head? {row later : List Char} {c : Char} (hhead : later.head? = row.head?)
    (hne : ∀ tail, row = c :: tail → False) : ∀ tail, later = c :: tail → False := by
  rintro tail rfl
  obtain ⟨other, hrow⟩ := List.head?_eq_some_iff.1 hhead.symm
  exact hne other hrow

/-! ## Numbers -/

/-- The digits in front are taken up to a character that is none. -/
theorem takes_spanDigits (row : List Char) :
    ∃ digits rest, row = digits ++ rest ∧ (∀ c ∈ digits, c.isDigit = true) ∧
      ∀ more : List Char, more.head? = rest.head? → spanDigits (digits ++ more) = (digits, more) := by
  have hdigits : ∀ c ∈ row.takeWhile Char.isDigit, c.isDigit = true :=
    List.all_eq_true.1 List.all_takeWhile
  refine ⟨_, _, List.takeWhile_append_dropWhile.symm, hdigits, fun more hmore =>
    spanDigits_append hdigits fun c hc => ?_⟩
  have hhead := List.head?_dropWhile_not Char.isDigit row
  rw [← hmore, Option.mem_def.1 hc] at hhead
  exact hhead

/-- The whole part of a number is taken, and there is one. -/
theorem takes_scanWhole {whole : List Char} (hscan : scanWhole row = some (whole, rest)) :
    TakesUpTo scanWhole row rest whole ∧ rest.length < row.length := by
  rw [scanWhole.eq_def] at hscan
  split at hscan
  · obtain ⟨rfl, rfl⟩ := Prod.mk.inj (Option.some.inj hscan)
    exact ⟨⟨['0'], rfl, by simp, fun _ => rfl⟩, Nat.lt_succ_self _⟩
  · rename_i hzero
    obtain ⟨digits, tail, rfl, hdigits, hspan⟩ := takes_spanDigits row
    rw [hspan tail rfl] at hscan
    cases digits with
    | nil => simp at hscan
    | cons digit digits =>
      obtain ⟨rfl, rfl⟩ := Prod.mk.inj (Option.some.inj hscan)
      refine ⟨⟨digit :: digits, rfl, fun c hc => printable_of_isDigit (hdigits c hc),
        fun {more} hhead => ?_⟩, ?_⟩
      · rw [scanWhole.eq_2 _ fun later heq => hzero _ (by rw [(List.cons.inj heq).1]; rfl),
          hspan more hhead]
      · rw [List.length_append, List.length_cons]
        omega

/-- The fraction of a number is taken, if there is one. -/
theorem takes_scanFraction {fraction : Option (List Char)}
    (hscan : scanFraction row = some (fraction, rest)) :
    TakesUpTo scanFraction row rest fraction := by
  rw [scanFraction.eq_def] at hscan
  split at hscan
  · rename_i row
    obtain ⟨digits, tail, rfl, hdigits, hspan⟩ := takes_spanDigits row
    rw [hspan tail rfl] at hscan
    cases digits with
    | nil => simp at hscan
    | cons digit digits =>
      obtain ⟨rfl, rfl⟩ := Prod.mk.inj (Option.some.inj hscan)
      refine ⟨'.' :: digit :: digits, rfl, fun c hc => ?_, fun {more} hhead => ?_⟩
      · rcases List.mem_cons.1 hc with rfl | hdigit
        · decide
        · exact printable_of_isDigit (hdigits c hdigit)
      · rw [List.cons_append, scanFraction, hspan more hhead]
  · rename_i hpoint
    obtain ⟨rfl, rfl⟩ := Prod.mk.inj (Option.some.inj hscan)
    exact .nothing fun later hhead => scanFraction.eq_2 _ (ne_cons_of_head? hhead hpoint)

/-- The digits of an exponent are taken. -/
theorem takes_scanExponentDigits {sign : ExponentSign} {exponent : Option ExponentPart}
    (hscan : scanExponentDigits sign row = some (exponent, rest)) :
    TakesUpTo (scanExponentDigits sign) row rest exponent := by
  obtain ⟨digits, tail, rfl, hdigits, hspan⟩ := takes_spanDigits row
  rw [scanExponentDigits, hspan tail rfl] at hscan
  cases digits with
  | nil => simp at hscan
  | cons digit digits =>
    obtain ⟨rfl, rfl⟩ := Prod.mk.inj (Option.some.inj hscan)
    refine ⟨digit :: digits, rfl, fun c hc => printable_of_isDigit (hdigits c hc),
      fun {more} hhead => ?_⟩
    rw [scanExponentDigits, hspan more hhead]

/-- The sign and the digits of an exponent are taken. -/
theorem takes_scanSignedExponent {exponent : Option ExponentPart}
    (hscan : scanSignedExponent row = some (exponent, rest)) :
    TakesUpTo scanSignedExponent row rest exponent := by
  rw [scanSignedExponent.eq_def] at hscan
  split at hscan
  · exact (takes_scanExponentDigits hscan).cons (by decide) fun _ => rfl
  · exact (takes_scanExponentDigits hscan).cons (by decide) fun _ => rfl
  · rename_i hplus hminus
    exact (takes_scanExponentDigits hscan).congr fun later hhead =>
      scanSignedExponent.eq_3 _ (ne_cons_of_head? hhead hplus) (ne_cons_of_head? hhead hminus)

/-- The exponent of a number is taken, if there is one. -/
theorem takes_scanExponent {exponent : Option ExponentPart}
    (hscan : scanExponent row = some (exponent, rest)) :
    TakesUpTo scanExponent row rest exponent := by
  rw [scanExponent.eq_def] at hscan
  split at hscan
  · exact (takes_scanSignedExponent hscan).cons (by decide) fun _ => rfl
  · exact (takes_scanSignedExponent hscan).cons (by decide) fun _ => rfl
  · rename_i hsmall hlarge
    obtain ⟨rfl, rfl⟩ := Prod.mk.inj (Option.some.inj hscan)
    exact .nothing fun later hhead =>
      scanExponent.eq_3 _ (ne_cons_of_head? hhead hsmall) (ne_cons_of_head? hhead hlarge)

/-- A number without a sign is taken, part after part. -/
theorem takes_scanUnsigned {negative : Bool} {numeral : Numeral}
    (hscan : scanUnsigned negative row = some (numeral, rest)) :
    TakesUpTo (scanUnsigned negative) row rest numeral ∧ rest.length < row.length := by
  simp only [scanUnsigned, Option.bind_eq_bind, Option.bind_eq_some_iff] at hscan
  obtain ⟨⟨whole, afterWhole⟩, hwhole, ⟨fraction, afterFraction⟩, hfraction,
    ⟨exponent, afterExponent⟩, hexponent, hnumeral⟩ := hscan
  obtain ⟨rfl, rfl⟩ := Prod.mk.inj (Option.some.inj hnumeral)
  obtain ⟨⟨first, rfl, hfirst⟩, hshorter⟩ := takes_scanWhole hwhole
  obtain ⟨second, rfl, hsecond⟩ := takes_scanFraction hfraction
  obtain ⟨third, rfl, hthird⟩ := takes_scanExponent hexponent
  have hlength : afterExponent.length < (first ++ (second ++ (third ++ afterExponent))).length := by
    simp only [List.length_append] at hshorter ⊢
    omega
  refine ⟨⟨first ++ (second ++ third), by simp, fun c hc => ?_, fun {more} hhead => ?_⟩, hlength⟩
  · simp only [List.mem_append] at hc
    rcases hc with hc | hc | hc
    · exact hfirst.printable c hc
    · exact hsecond.printable c hc
    · exact hthird.printable c hc
  · -- what follows a part begins as it did
    have hexponents := hthird.scan_append hhead
    have hfractions : scanFraction (second ++ (third ++ more)) = some (fraction, third ++ more) :=
      hsecond.scan_append (by rw [List.head?_append, List.head?_append, hhead])
    have hwholes : scanWhole (first ++ (second ++ (third ++ more))) =
        some (whole, second ++ (third ++ more)) :=
      hfirst.scan_append (by simp only [List.head?_append, hhead])
    simp [scanUnsigned, hwholes, hfractions, hexponents]

/-- A number is taken. -/
theorem takes_scanNumber {numeral : Numeral} (hscan : scanNumber row = some (numeral, rest)) :
    TakesUpTo scanNumber row rest numeral ∧ rest.length < row.length := by
  rw [scanNumber.eq_def] at hscan
  split at hscan
  · obtain ⟨htakes, hshorter⟩ := takes_scanUnsigned hscan
    exact ⟨htakes.cons (by decide) fun _ => rfl, Nat.lt_succ_of_lt hshorter⟩
  · rename_i hminus
    obtain ⟨htakes, hshorter⟩ := takes_scanUnsigned hscan
    exact ⟨htakes.congr fun later hhead => scanNumber.eq_2 _ (ne_cons_of_head? hhead hminus),
      hshorter⟩

/-- A number begins with a minus sign or a digit. -/
theorem exists_head_of_scanNumber {numeral : Numeral}
    (hscan : scanNumber row = some (numeral, rest)) :
    ∃ c later, row = c :: later ∧ (c = '-' ∨ c.isDigit = true) := by
  rw [scanNumber.eq_def] at hscan
  split at hscan
  · exact ⟨_, _, rfl, .inl rfl⟩
  · simp only [scanUnsigned, Option.bind_eq_bind, Option.bind_eq_some_iff] at hscan
    obtain ⟨⟨whole, later⟩, hwhole, -⟩ := hscan
    rw [scanWhole.eq_def] at hwhole
    split at hwhole
    · exact ⟨_, _, rfl, .inr (by decide)⟩
    · obtain ⟨digits, tail, rfl, hdigits, hspan⟩ := takes_spanDigits row
      rw [hspan tail rfl] at hwhole
      cases digits with
      | nil => simp at hwhole
      | cons digit digits => exact ⟨_, _, rfl, .inr (hdigits _ List.mem_cons_self)⟩

/-! ## Strings -/

/-- A hexadecimal digit is no control character. -/
theorem printable_of_hexValue? {c : Char} {n : Nat} (hvalue : hexValue? c = some n) :
    32 ≤ c.toNat := by
  refine Nat.le_of_not_lt fun hcontrol => ?_
  have hall : ∀ code < 32, hexValue? (Char.ofNat code) = none := by decide
  have hnone := hall c.toNat (by omega)
  rw [Char.ofNat_toNat, hvalue] at hnone
  contradiction

/-- No digit of a hexadecimal unit is a control character. -/
theorem printable_of_hexUnit? {first second third fourth : Char} {code : Nat}
    (hunit : hexUnit? first second third fourth = some code) :
    ∀ c ∈ [first, second, third, fourth], 32 ≤ c.toNat := by
  simp only [hexUnit?, Option.bind_eq_bind, Option.bind_eq_some_iff] at hunit
  obtain ⟨_, hfirst, _, hsecond, _, hthird, _, hfourth, -⟩ := hunit
  simpa using ⟨printable_of_hexValue? hfirst, printable_of_hexValue? hsecond,
    printable_of_hexValue? hthird, printable_of_hexValue? hfourth⟩

/-- The letter of an escape is no control character. -/
theorem printable_of_simpleEscape? {letter c : Char} (hescape : simpleEscape? letter = some c) :
    32 ≤ letter.toNat := by
  refine Nat.le_of_not_lt fun hcontrol => ?_
  have hall : ∀ code < 32, simpleEscape? (Char.ofNat code) = none := by decide
  have hnone := hall letter.toNat (by omega)
  rw [Char.ofNat_toNat, hescape] at hnone
  contradiction

/-- A string is taken up to its closing quote, whatever stands behind it. -/
theorem takes_scanText {scan : TextScan} {content : Option String}
    (hscan : scanText row scan = some (content, rest)) :
    ∃ front, row = front ++ rest ∧ ∀ next, Takes (scanText · scan) front content next := by
  fun_induction scanText row scan with
  | case1 scan => simp at hscan
  | case2 later scan =>
    obtain ⟨rfl, rfl⟩ := Prod.mk.inj (Option.some.inj hscan)
    exact ⟨['"'], rfl, fun _ => ⟨by simp, fun _ => rfl⟩⟩
  | case3 a b c d later scan code hunit ih =>
    obtain ⟨front, rfl, htakes⟩ := ih hscan
    refine ⟨'\\' :: 'u' :: a :: b :: c :: d :: front, rfl, fun next => ⟨?_, fun hhead => ?_⟩⟩
    · have hdigits := printable_of_hexUnit? hunit
      have hfront := (htakes next).printable
      simp_all
    · simp [scanText, hunit, (htakes next).scan_append hhead]
  | case4 a b c d later scan hunit => simp at hscan
  | case5 letter later scan hunicode c hescape ih =>
    obtain ⟨front, rfl, htakes⟩ := ih hscan
    have hletter : letter ≠ 'u' := by
      rintro rfl
      have hnone : none = some c := hescape
      contradiction
    refine ⟨'\\' :: letter :: front, rfl, fun next => ⟨?_, fun {more} hhead => ?_⟩⟩
    · have hprintable := printable_of_simpleEscape? hescape
      have hfront := (htakes next).printable
      simp_all
    · rw [List.cons_append, List.cons_append,
        scanText.eq_4 _ _ _ fun _ _ _ _ _ heq _ => hletter heq, hescape]
      exact (htakes next).scan_append hhead
  | case6 letter later scan hunicode hescape => simp at hscan
  | case7 c later scan hquote hunicode hescape hcontrol => simp at hscan
  | case8 c later scan hquote hunicode hescape hcontrol ih =>
    -- a backslash at the very end would leave the string open
    have hbackslash : c ≠ '\\' := by
      rintro rfl
      cases later with
      | nil => simp [scanText] at hscan
      | cons letter later => exact hescape letter later rfl rfl
    obtain ⟨front, rfl, htakes⟩ := ih hscan
    refine ⟨c :: front, rfl, fun next => ⟨?_, fun {more} hhead => ?_⟩⟩
    · have hfront := (htakes next).printable
      simp_all
    · rw [List.cons_append, scanText.eq_5 _ _ _ hquote
        (fun _ _ _ _ _ heq _ => hbackslash heq) (fun _ _ heq _ => hbackslash heq), if_neg hcontrol]
      exact (htakes next).scan_append hhead

/-! ## Tokens -/

/-- Whether a token is a number. -/
def Token.isNumber : Token → Bool
  | .number _ => true
  | _ => false

/-- What a number begins with begins no other token. -/
theorem scanToken_of_scanNumber {numeral : Numeral}
    (hscan : scanNumber row = some (numeral, rest)) :
    scanToken row = some (.number numeral, rest) := by
  obtain ⟨c, later, rfl, rfl | hdigit⟩ := exists_head_of_scanNumber hscan
  · show (scanNumber ('-' :: later)).map _ = _
    rw [hscan]
    rfl
  · have hfirst := mem_digits_of_isDigit hdigit
    have hmap : scanToken (c :: later) = (scanNumber (c :: later)).map
        fun scanned => (.number scanned.1, scanned.2) := by
      simp only [List.mem_cons, List.not_mem_nil, or_false] at hfirst
      rcases hfirst with rfl | rfl | rfl | rfl | rfl | rfl | rfl | rfl | rfl | rfl <;> rfl
    rw [hmap, hscan]
    rfl

/-- A token is taken, whatever stands behind it unless it is a number. -/
theorem takes_scanToken {token : Token} (hscan : scanToken row = some (token, rest)) :
    ∃ front, front ≠ [] ∧ row = front ++ rest ∧
      ∀ next, (token.isNumber = true → next = rest.head?) → Takes scanToken front token next := by
  rw [scanToken.eq_def] at hscan
  split at hscan
  case h_10 =>
    obtain ⟨⟨content, tail⟩, htext, htoken⟩ := Option.map_eq_some_iff.1 hscan
    obtain ⟨rfl, rfl⟩ := Prod.mk.inj htoken
    obtain ⟨front, rfl, htakes⟩ := takes_scanText htext
    refine ⟨'"' :: front, by simp, rfl, fun next _ => ⟨?_, fun {more} hhead => ?_⟩⟩
    · have hfront := (htakes next).printable
      simp_all
    · rw [List.cons_append, scanToken]
      rw [(htakes next).scan_append hhead]
      rfl
  case h_11 =>
    obtain ⟨⟨numeral, tail⟩, hnumber, htoken⟩ := Option.map_eq_some_iff.1 hscan
    obtain ⟨rfl, rfl⟩ := Prod.mk.inj htoken
    obtain ⟨⟨front, rfl, htakes⟩, hshorter⟩ := takes_scanNumber hnumber
    refine ⟨front, ?_, rfl, fun next hnext => ⟨htakes.printable, fun hhead => ?_⟩⟩
    · rintro rfl
      exact absurd hshorter (Nat.lt_irrefl _)
    · exact scanToken_of_scanNumber (htakes.scan_append (hhead.trans (hnext rfl)))
  all_goals
    obtain ⟨rfl, rfl⟩ := Prod.mk.inj (Option.some.inj hscan)
  case h_7 => exact ⟨['n', 'u', 'l', 'l'], by simp, rfl, fun _ _ => ⟨by simp, fun _ => rfl⟩⟩
  case h_8 => exact ⟨['t', 'r', 'u', 'e'], by simp, rfl, fun _ _ => ⟨by simp, fun _ => rfl⟩⟩
  case h_9 => exact ⟨['f', 'a', 'l', 's', 'e'], by simp, rfl, fun _ _ => ⟨by simp, fun _ => rfl⟩⟩
  all_goals exact ⟨[_], by simp, rfl, fun _ _ => ⟨by simp, fun _ => rfl⟩⟩

end RegionGossip.Json
