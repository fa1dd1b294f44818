import Mathlib.Tactic.SplitIfs
import RegionGossip.Proofs.Json.Numeral

/-!
# Written tokens are read back

Cutting a text into tokens undoes writing them one after the other. Strings are read back character
by character, whatever they hold: each character is either escaped or stands for itself, and the
escapes for control characters form no surrogates, so nothing is joined or lost.
-/

namespace RegionGossip.Json

/-- What was read of a string of known characters without any fault. -/
def TextScan.of (chars : List Char) : TextScan := ⟨chars, none, false⟩

/-- A further character is added without any fault. -/
theorem TextScan.push_of (chars : List Char) (c : Char) :
    (TextScan.of chars).push c = .of (c :: chars) := rfl

/-- A control character is the one that its escape stands for. -/
theorem hexUnit?_hexDigit {c : Char} (hcontrol : c.toNat < 32) :
    hexUnit? '0' '0' (hexDigit (c.toNat / 16)) (hexDigit c.toNat) = some c.toNat := by
  have hall : ∀ code < 32, hexUnit? '0' '0' (hexDigit (code / 16)) (hexDigit code) = some code := by
    decide
  exact hall _ hcontrol

/-- The unit of a control character is that character. -/
theorem TextScan.pushUnit_control (scan : TextScan) {c : Char} (hcontrol : c.toNat < 32) :
    scan.pushUnit c.toNat = scan.push c := by
  rw [pushUnit, if_neg (by omega), if_neg (by omega), Char.ofNat_toNat]

/-- One character of a string is read back, however it is written. -/
theorem scanText_escapeChar (c : Char) (rest : List Char) (scan : TextScan) :
    scanText (escapeChar c ++ rest) scan = scanText rest (scan.push c) := by
  rw [escapeChar]
  split_ifs with hquote hbackslash h08 htab hline h0c hreturn hcontrol
  · rw [hquote]; rfl
  · rw [hbackslash]; rfl
  · rw [h08]; rfl
  · rw [htab]; rfl
  · rw [hline]; rfl
  · rw [h0c]; rfl
  · rw [hreturn]; rfl
  · show scanText ('\\' :: 'u' :: '0' :: '0' :: hexDigit (c.toNat / 16) :: hexDigit c.toNat :: rest)
      scan = _
    rw [scanText, hexUnit?_hexDigit hcontrol]
    simp only [TextScan.pushUnit_control scan hcontrol]
  · show scanText (c :: rest) scan = _
    rw [scanText.eq_5 _ _ _ hquote (fun _ _ _ _ _ heq _ => hbackslash heq)
      (fun _ _ heq _ => hbackslash heq), if_neg hcontrol]

/-- The characters of a string are read back up to its closing quote. -/
theorem scanText_flatMap (content rest done : List Char) :
    scanText (content.flatMap escapeChar ++ '"' :: rest) (.of done) =
      some (some (String.ofList (done.reverse ++ content)), rest) := by
  induction content generalizing done with
  | nil => simp [scanText, TextScan.of, TextScan.finish, TextScan.settle]
  | cons c content ih =>
    rw [List.flatMap_cons, List.append_assoc, scanText_escapeChar, TextScan.push_of, ih]
    simp

/-- A written string is the token that is read. -/
theorem scanToken_text (content : String) (rest : List Char) :
    scanToken ((Token.text (some content)).chars ++ rest) = some (.text (some content), rest) := by
  have hscan := scanText_flatMap content.toList rest []
  have hquote (row : List Char) : scanToken ('"' :: row) =
    (scanText row (.of [])).map fun scanned => (.text scanned.1, scanned.2) := rfl
  simp [Token.chars, quote, hquote, hscan]

/-- A token that can be written: its number is regular and its string has text. -/
def Token.Regular : Token → Prop
  | .number numeral => numeral.Regular
  | .text content => content.isSome
  | _ => True

/-- A comma, a closing bracket or a closing brace. -/
def Token.isStop : Token → Bool
  | .comma | .closeBracket | .closeBrace => true
  | _ => false

/-- A row of tokens that can be written: only what stops a number follows one. -/
def RegularRow : List Token → Prop
  | [] => True
  | token :: rest =>
    token.Regular ∧ (∀ numeral, token = .number numeral → ∀ next ∈ rest.head?, next.isStop = true) ∧
      RegularRow rest

/-- Every token has a first character, which is no space. -/
theorem exists_chars_eq_cons {token : Token} (hregular : token.Regular) :
    ∃ c rest, token.chars = c :: rest ∧ isSpace c = false := by
  cases token with
  | number numeral =>
    cases hsign : numeral.negative with
    | true => exact ⟨'-', _, by simp [Token.chars, Numeral.chars, hsign]; rfl, by decide⟩
    | false =>
      obtain ⟨digit, rest, hwhole⟩ := List.exists_cons_of_ne_nil hregular.whole.1
      have hdigit := mem_digits_of_isDigit (hregular.whole.2 digit (hwhole ▸ List.mem_cons_self))
      refine ⟨digit, _, by simp [Token.chars, Numeral.chars, hsign, hwhole]; rfl, ?_⟩
      simp only [List.mem_cons, List.not_mem_nil, or_false] at hdigit
      rcases hdigit with rfl | rfl | rfl | rfl | rfl | rfl | rfl | rfl | rfl | rfl <;> decide
  | bool flag => cases flag <;> exact ⟨_, _, rfl, by decide⟩
  | _ => exact ⟨_, _, rfl, by decide⟩

/-- What is written after a number stops it. -/
theorem stops_flatMap {row : List Token} (hstop : ∀ next ∈ row.head?, next.isStop = true) :
    Stops (row.flatMap Token.chars) := by
  cases row with
  | nil => exact fun c hc => absurd hc (by simp)
  | cons next rest =>
    have hnext : next = .comma ∨ next = .closeBracket ∨ next = .closeBrace := by
      have hstop := hstop next rfl
      cases next <;> simp_all [Token.isStop]
    intro c hc
    rcases hnext with rfl | rfl | rfl
    · exact .inl (by simpa [Token.chars] using hc.symm)
    · exact .inr (.inl (by simpa [Token.chars] using hc.symm))
    · exact .inr (.inr (by simpa [Token.chars] using hc.symm))

/-- The first token of a row is read back. -/
theorem scanToken_chars {token : Token} {row : List Token} (hrow : RegularRow (token :: row)) :
    scanToken (token.chars ++ row.flatMap Token.chars) = some (token, row.flatMap Token.chars) := by
  obtain ⟨hregular, hstop, -⟩ := hrow
  cases token with
  | number numeral => exact scanToken_number hregular (stops_flatMap (hstop numeral rfl))
  | text content =>
    obtain ⟨text, rfl⟩ := Option.isSome_iff_exists.1 hregular
    exact scanToken_text text _
  | bool flag => cases flag <;> rfl
  | _ => rfl

/-- A row of tokens is read back one after the other. -/
theorem scanTokens_flatMap {row : List Token} (hrow : RegularRow row) :
    ∀ (fuel : Nat) (done : List Token), (row.flatMap Token.chars).length ≤ fuel →
      scanTokens fuel (row.flatMap Token.chars) done = some (done.reverse ++ row) := by
  induction row with
  | nil => intro fuel done _; cases fuel <;> simp [scanTokens]
  | cons token rest ih =>
    intro fuel done hfuel
    obtain ⟨c, chars, hchars, hspace⟩ := exists_chars_eq_cons hrow.1
    have hscan := scanToken_chars hrow
    rw [List.flatMap_cons] at hfuel ⊢
    rw [hchars, List.cons_append] at hfuel hscan ⊢
    cases fuel with
    | zero => exact absurd hfuel (by simp)
    | succ fuel =>
      have hrest : (rest.flatMap Token.chars).length ≤ fuel := by
        simp only [List.length_cons, List.length_append] at hfuel
        omega
      rw [scanTokens, hspace, hscan]
      simp [ih hrow.2.2 fuel (token :: done) hrest]

/-- Cutting a text into tokens undoes writing them. -/
theorem lex_flatMap {row : List Token} (hrow : RegularRow row) :
    lex (row.flatMap Token.chars) = some row := by
  rw [lex, scanTokens_flatMap hrow _ [] (Nat.le_refl _)]
  rfl

end RegionGossip.Json
