import RegionGossip.Address
import RegionGossip.Proofs.Json.Numeral

/-!
# Which texts are addresses

A text is an address when what stands behind its last colon is a port: an optional plus sign and
digits, as many leading zeros among them as one likes, of a value that a port can have. A neighbour
is a name without an equals sign, an equals sign and an address. The displayed form of an address
is one of its texts, whatever its host looks like, because a displayed port has no colon in it.
-/

namespace RegionGossip

/-! ## Dividing a text at a mark -/

variable {mark : Char} {row before after : List Char}

/-- A text is divided at the first mark: there is none in front of it. -/
theorem splitFirst_eq_some_iff :
    splitFirst mark row = some (before, after) ↔
      row = before ++ mark :: after ∧ mark ∉ before := by
  induction row generalizing before with
  | nil => simp [splitFirst]
  | cons c rest ih =>
    rw [splitFirst]
    by_cases hmark : c = mark
    · subst hmark
      rw [if_pos rfl]
      constructor
      · intro hsplit
        obtain ⟨rfl, rfl⟩ := Prod.mk.inj (Option.some.inj hsplit)
        exact ⟨rfl, List.not_mem_nil⟩
      · rintro ⟨hrow, habsent⟩
        cases before with
        | nil => rw [(List.cons.inj hrow).2]
        | cons first more => exact absurd ((List.cons.inj hrow).1 ▸ List.mem_cons_self) habsent
    · rw [if_neg hmark, Option.map_eq_some_iff]
      constructor
      · rintro ⟨⟨front, back⟩, hsplit, hparts⟩
        obtain ⟨rfl, rfl⟩ := Prod.mk.inj hparts
        obtain ⟨rfl, habsent⟩ := ih.1 hsplit
        exact ⟨rfl, by simp [habsent, Ne.symm hmark]⟩
      · rintro ⟨hrow, habsent⟩
        cases before with
        | nil => exact absurd (List.cons.inj hrow).1 hmark
        | cons first more =>
          obtain ⟨rfl, rfl⟩ := List.cons.inj hrow
          have hmore : mark ∉ more := fun hmem => habsent (List.mem_cons_of_mem _ hmem)
          exact ⟨(more, after), ih.2 ⟨rfl, hmore⟩, rfl⟩

/-- A text is divided at the last mark: there is none behind it. -/
theorem splitLast_eq_some_iff :
    splitLast mark row = some (before, after) ↔
      row = before ++ mark :: after ∧ mark ∉ after := by
  have hreverse : row = before ++ mark :: after ↔
      row.reverse = after.reverse ++ mark :: before.reverse := by
    rw [← List.reverse_inj]
    simp
  rw [splitLast, Option.map_eq_some_iff, hreverse]
  constructor
  · rintro ⟨⟨back, front⟩, hsplit, hparts⟩
    obtain ⟨rfl, rfl⟩ := Prod.mk.inj hparts
    simpa using splitFirst_eq_some_iff.1 hsplit
  · rintro ⟨hrow, habsent⟩
    exact ⟨(after.reverse, before.reverse),
      splitFirst_eq_some_iff.2 ⟨hrow, by simpa using habsent⟩, by simp⟩

namespace Decimal

/-! ## Unsigned numerals -/

/-- The number that a row of characters spells: an optional plus sign, and one or more digits. -/
inductive Spells : List Char → Nat → Prop
  | plain {row : List Char} : IsDigits row → Spells row (value row)
  | plus {row : List Char} : IsDigits row → Spells ('+' :: row) (value row)

/-- Digits are read as far as the number stays within the bound, and nothing else is. -/
theorem readBounded_eq_ok_iff {bound total n : Nat} (htotal : total ≤ bound) :
    readBounded bound row total = .ok n ↔
      (∀ c ∈ row, c.isDigit = true) ∧ Nat.ofDigitChars 10 row total = n ∧ n ≤ bound := by
  induction row generalizing total with
  | nil =>
    simp only [readBounded, Except.ok.injEq, Nat.ofDigitChars_nil, List.not_mem_nil, false_imp_iff,
      implies_true, true_and]
    exact ⟨fun hn => ⟨hn, hn ▸ htotal⟩, fun h => h.1⟩
  | cons c rest ih =>
    rw [readBounded, Nat.ofDigitChars_cons, List.forall_mem_cons]
    by_cases hdigit : c.isDigit = true
    · rw [if_pos hdigit]
      dsimp only
      by_cases hnext : 10 * total + (c.toNat - '0'.toNat) ≤ bound
      · rw [if_pos hnext, ih hnext]
        simp [hdigit]
      · rw [if_neg hnext]
        have hgrows := le_ofDigitChars rest (10 * total + (c.toNat - '0'.toNat))
        constructor
        · intro hread
          contradiction
        · rintro ⟨-, hvalue, hbound⟩
          omega
    · rw [if_neg hdigit]
      simp [hdigit]

/-- No sign is a digit. -/
theorem not_isDigits_plus : ¬ IsDigits ('+' :: row) := by
  intro hdigits
  exact absurd (hdigits.2 '+' List.mem_cons_self) (by decide)

/-- A row of characters reads as a number within a bound exactly when it spells that number. -/
theorem readNat_eq_ok_iff {bound n : Nat} :
    readNat bound row = .ok n ↔ Spells row n ∧ n ≤ bound := by
  have hbounded (row : List Char) (hne : row ≠ []) :
      readBounded bound row 0 = .ok n ↔ (IsDigits row ∧ value row = n) ∧ n ≤ bound := by
    rw [readBounded_eq_ok_iff (Nat.zero_le bound), IsDigits, value]
    simp only [and_assoc, ne_eq, hne, not_false_eq_true, true_and]
  have hplain (row : List Char) (hsign : ∀ rest, row ≠ '+' :: rest) :
      Spells row n ↔ IsDigits row ∧ value row = n := by
    constructor
    · rintro (hdigits | @⟨rest, hdigits⟩)
      · exact ⟨hdigits, rfl⟩
      · exact absurd rfl (hsign rest)
    · rintro ⟨hdigits, rfl⟩
      exact .plain hdigits
  have hplus (rest : List Char) : Spells ('+' :: rest) n ↔ IsDigits rest ∧ value rest = n := by
    constructor
    · intro hspells
      generalize hrow : '+' :: rest = row at hspells
      cases hspells with
      | plain hdigits => exact absurd (hrow ▸ hdigits) not_isDigits_plus
      | plus hdigits =>
        obtain ⟨-, rfl⟩ := List.cons.inj hrow
        exact ⟨hdigits, rfl⟩
    · rintro ⟨hdigits, rfl⟩
      exact .plus hdigits
  unfold readNat
  split
  · simp [hplain, IsDigits]
  · simp [hplus, IsDigits]
  · rename_i rest hrest
    rw [hbounded rest hrest, hplus]
  · rename_i hnil hlone hsign
    rw [hbounded row hnil, hplain row hsign]

/-- The written form of a number spells it. -/
theorem spells_digits (n : Nat) : Spells (digits n) n := by
  have hspells := Spells.plain (isDigits_digits n)
  rwa [value_digits] at hspells

end Decimal

namespace Address

/-! ## Addresses and neighbours -/

/-- A text with a mark between two parts is divided into these parts. -/
theorem eq_append_iff_toList (mark : Char) {text front sign back : String}
    (hsign : sign.toList = [mark]) :
    text = front ++ sign ++ back ↔ text.toList = front.toList ++ mark :: back.toList := by
  rw [← String.toList_inj]
  simp [hsign]

/-- A text is an address exactly when it is a host, a colon and the text of a port. -/
theorem parse_eq_ok_iff {text host : String} {port : UInt16} :
    parse text = .ok ⟨host, port⟩ ↔
      ∃ portText : String, text = host ++ ":" ++ portText ∧ ':' ∉ portText.toList ∧
        Decimal.Spells portText.toList port.toNat := by
  constructor
  · intro hparse
    unfold parse at hparse
    split at hparse
    · contradiction
    · rename_i front back hsplit
      obtain ⟨htext, habsent⟩ := splitLast_eq_some_iff.1 hsplit
      split at hparse
      · rename_i n hread
        obtain ⟨hspells, hbound⟩ := Decimal.readNat_eq_ok_iff.1 hread
        obtain ⟨rfl, rfl⟩ := Address.mk.inj (Except.ok.inj hparse)
        have hport : (UInt16.ofNat n).toNat = n := UInt16.toNat_ofNat_of_lt (by
          show n < 65536
          omega)
        refine ⟨String.ofList back, (eq_append_iff_toList ':' rfl).2 ?_, ?_, ?_⟩
        · simpa using htext
        · simpa using habsent
        · simpa [hport] using hspells
      · contradiction
  · rintro ⟨portText, htext, habsent, hspells⟩
    have hsplit := splitLast_eq_some_iff.2 ⟨(eq_append_iff_toList ':' rfl).1 htext, habsent⟩
    have hread : Decimal.readNat 65535 portText.toList = .ok port.toNat :=
      Decimal.readNat_eq_ok_iff.2 ⟨hspells, Nat.le_of_lt_succ port.toNat_lt⟩
    simp [parse, hsplit, hread]

/-- A text gives a neighbour exactly when it is a name, an equals sign and an address. -/
theorem parseNeighbor_eq_ok_iff {text name : String} {address : Address} :
    parseNeighbor text = .ok (name, address) ↔
      ∃ addressText : String, text = name ++ "=" ++ addressText ∧ '=' ∉ name.toList ∧
        parse addressText = .ok address := by
  constructor
  · intro hparse
    unfold parseNeighbor at hparse
    split at hparse
    · contradiction
    · rename_i front back hsplit
      obtain ⟨htext, habsent⟩ := splitFirst_eq_some_iff.1 hsplit
      obtain ⟨read, hread, hpair⟩ : ∃ read, parse (String.ofList back) = .ok read ∧
          (String.ofList front, read) = (name, address) := by
        cases hread : parse (String.ofList back) with
        | ok read => exact ⟨read, rfl, by simpa [hread, Except.map] using hparse⟩
        | error fault => simp [hread, Except.map] at hparse
      obtain ⟨rfl, rfl⟩ := Prod.mk.inj hpair
      refine ⟨String.ofList back, (eq_append_iff_toList '=' rfl).2 ?_, ?_, hread⟩
      · simpa using htext
      · simpa using habsent
  · rintro ⟨addressText, htext, habsent, hread⟩
    have hsplit := splitFirst_eq_some_iff.2 ⟨(eq_append_iff_toList '=' rfl).1 htext, habsent⟩
    simp [parseNeighbor, hsplit, hread, Except.map]

/-- The displayed form of an address is read as this address: a displayed port has no colon. -/
theorem parse_text (address : Address) : parse address.text = .ok address := by
  have hspells := Decimal.spells_digits address.port.toNat
  have habsent : ':' ∉ Decimal.digits address.port.toNat := by
    intro hmem
    exact absurd (Decimal.isDigit_of_mem_digits hmem) (by decide)
  refine parse_eq_ok_iff.2 ⟨Decimal.text address.port.toNat, rfl, ?_, ?_⟩ <;>
    rwa [Decimal.text, String.toList_ofList]

/-- Texts are read as addresses and as neighbours exactly where they have the form of one, and the
displayed form of every address is read back, also behind the name of a neighbour. -/
theorem arguments_read_exactly :
    (∀ (text host : String) (port : UInt16), parse text = .ok ⟨host, port⟩ ↔
      ∃ portText : String, text = host ++ ":" ++ portText ∧ ':' ∉ portText.toList ∧
        Decimal.Spells portText.toList port.toNat) ∧
    (∀ (text name : String) (address : Address), parseNeighbor text = .ok (name, address) ↔
      ∃ addressText : String, text = name ++ "=" ++ addressText ∧ '=' ∉ name.toList ∧
        parse addressText = .ok address) ∧
    (∀ address : Address, parse address.text = .ok address) ∧
    ∀ (name : String) (address : Address), '=' ∉ name.toList →
      parseNeighbor (name ++ "=" ++ address.text) = .ok (name, address) :=
  ⟨fun _ _ _ => parse_eq_ok_iff, fun _ _ _ => parseNeighbor_eq_ok_iff, parse_text,
    fun _ address habsent => parseNeighbor_eq_ok_iff.2 ⟨address.text, rfl, habsent, parse_text address⟩⟩

/-- A host with colons and an equals sign comes back behind a name, and a port may have a sign and
leading zeros. -/
theorem scopedHost_read_back :
    '=' ∉ "b".toList ∧
    parseNeighbor ("b" ++ "=" ++ Address.text ⟨"[fe80::1%a=b]", 7601⟩) =
      .ok ("b", ⟨"[fe80::1%a=b]", 7601⟩) ∧
    parse "::1:+007601" = .ok ⟨"::1", 7601⟩ := by
  have habsent : '=' ∉ "b".toList := by decide
  have hspells : Decimal.Spells ['+', '0', '0', '7', '6', '0', '1'] 7601 :=
    .plus ⟨by decide, List.all_eq_true.1 (by decide)⟩
  exact ⟨habsent, arguments_read_exactly.2.2.2 _ _ habsent,
    (arguments_read_exactly.1 _ _ _).2 ⟨"+007601", by decide, by decide, hspells⟩⟩

end Address

end RegionGossip
