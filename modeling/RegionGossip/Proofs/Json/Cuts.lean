import RegionGossip.Proofs.Json.Documents
import RegionGossip.Proofs.Json.Scanning

/-!
# Texts that are cut

The tokens of a text are those of its front and then those of its back, as long as the cut divides no
number. A front that is a document has no open array or object, and so nothing but white space can
stand behind it. The only document that goes on at its end is a number that stands alone; an object
ends with its closing brace, and no part of its text is an object too.
-/

namespace RegionGossip.Json

variable {text front back : List Char} {row : List Token}

/-! ## Rows of tokens -/

/-- A text is cut into these tokens, with white space before, between and behind them. -/
inductive Lexes : List Char → List Token → Prop
  | nil : Lexes [] []
  | space {c : Char} {text : List Char} {row : List Token} :
    isSpace c = true → Lexes text row → Lexes (c :: text) row
  | token {c : Char} {text rest : List Char} {token : Token} {row : List Token} :
    isSpace c = false → scanToken (c :: text) = some (token, rest) → Lexes rest row →
    Lexes (c :: text) (token :: row)

/-- A text without characters has no tokens. -/
theorem lexes_nil_iff : Lexes [] row ↔ row = [] :=
  ⟨fun hlexes => by cases hlexes; rfl, fun hrow => hrow ▸ .nil⟩

/-- White space in front is dropped. -/
theorem lexes_space_iff {c : Char} (hspace : isSpace c = true) :
    Lexes (c :: text) row ↔ Lexes text row := by
  refine ⟨fun hlexes => ?_, .space hspace⟩
  cases hlexes with
  | space _ htext => exact htext
  | token hnone => rw [hspace] at hnone; contradiction

/-- Where no white space stands in front, the first token does. -/
theorem lexes_token_iff {c : Char} (hspace : isSpace c = false) :
    Lexes (c :: text) row ↔ ∃ token rest later,
      scanToken (c :: text) = some (token, rest) ∧ Lexes rest later ∧ row = token :: later := by
  constructor
  · intro hlexes
    cases hlexes with
    | space hsome => rw [hspace] at hsome; contradiction
    | token _ hscan hrest => exact ⟨_, _, _, hscan, hrest, rfl⟩
  · rintro ⟨token, rest, later, hscan, hrest, rfl⟩
    exact .token hspace hscan hrest

/-- A token has a character, so what is left is shorter. -/
theorem length_lt_of_scanToken {token : Token} {rest : List Char}
    (hscan : scanToken text = some (token, rest)) : rest.length < text.length := by
  obtain ⟨taken, hne, rfl, -⟩ := takes_scanToken hscan
  have hpositive := List.length_pos_iff.2 hne
  rw [List.length_append]
  omega

/-- With fuel for each character, the tokens that are found are those of the text. -/
theorem scanTokens_eq_some_iff {fuel : Nat} {done all : List Token} (hfuel : text.length ≤ fuel) :
    scanTokens fuel text done = some all ↔ ∃ row, Lexes text row ∧ all = done.reverse ++ row := by
  induction fuel generalizing text done with
  | zero =>
    obtain rfl := List.length_eq_zero_iff.1 (Nat.le_zero.1 hfuel)
    simp [scanTokens, lexes_nil_iff, eq_comm]
  | succ fuel ih =>
    cases text with
    | nil => simp [scanTokens, lexes_nil_iff, eq_comm]
    | cons c text =>
      rw [scanTokens]
      cases hspace : isSpace c with
      | true => rw [if_pos rfl, ih (Nat.le_of_succ_le_succ hfuel)]; simp only [lexes_space_iff hspace]
      | false =>
        rw [if_neg Bool.false_ne_true]
        simp only [lexes_token_iff hspace]
        cases hscan : scanToken (c :: text) with
        | none => simp
        | some scanned =>
          obtain ⟨token, rest⟩ := scanned
          have hshorter := length_lt_of_scanToken hscan
          simp only [ih (Nat.le_of_lt_succ (Nat.lt_of_lt_of_le hshorter hfuel))]
          constructor
          · rintro ⟨row, hrow, rfl⟩
            exact ⟨token :: row, ⟨token, rest, row, rfl, hrow, rfl⟩, by simp⟩
          · rintro ⟨_, ⟨_, _, row, ⟨⟩, hrow, rfl⟩, rfl⟩
            exact ⟨row, hrow, by simp⟩

/-- The tokens of a text. -/
theorem lex_eq_some_iff : lex text = some row ↔ Lexes text row := by
  rw [lex, scanTokens_eq_some_iff (Nat.le_refl _)]
  simp

/-- A text with tokens has no control character but white space. -/
theorem Lexes.printable (hlexes : Lexes text row) :
    ∀ c ∈ text, isSpace c = true ∨ 32 ≤ c.toNat := by
  induction hlexes with
  | nil => simp
  | space hspace _ ih => simpa [hspace] using ih
  | @token c text rest token row hspace hscan _ ih =>
    obtain ⟨taken, -, htaken, htakes⟩ := takes_scanToken hscan
    intro d hd
    rw [htaken, List.mem_append] at hd
    rcases hd with hd | hd
    · exact .inr ((htakes _ fun _ => rfl).printable d hd)
    · exact ih d hd

/-- Behind tokens of which the last is no number, a text has the tokens that it has alone. -/
theorem lexes_append_iff {all : List Token} (hfront : Lexes front row)
    (hlast : ∀ token ∈ row.getLast?, token.isNumber = false) :
    Lexes (front ++ back) all ↔ ∃ more, Lexes back more ∧ row ++ more = all := by
  induction hfront generalizing all with
  | nil => simp
  | space hspace _ ih => rw [List.cons_append, lexes_space_iff hspace, ih hlast]
  | @token c text rest token row hspace hscan hrest ih =>
    obtain ⟨taken, -, htaken, htakes⟩ := takes_scanToken hscan
    -- what follows a number is another token, or the cut would divide it
    have hnext : token.isNumber = true → (rest ++ back).head? = rest.head? := by
      intro hnumber
      cases rest with
      | cons c rest => rfl
      | nil =>
        obtain rfl := lexes_nil_iff.1 hrest
        rw [hlast token rfl] at hnumber
        contradiction
    have hboth : scanToken (c :: (text ++ back)) = some (token, rest ++ back) := by
      rw [← List.cons_append, htaken, List.append_assoc]
      exact (htakes _ hnext).scan_append rfl
    have hlater : ∀ token ∈ row.getLast?, token.isNumber = false := by
      cases row with
      | nil => simp
      | cons next row => rwa [List.getLast?_cons_cons] at hlast
    rw [List.cons_append, lexes_token_iff hspace, hboth]
    constructor
    · rintro ⟨_, _, later, ⟨⟩, hall, rfl⟩
      obtain ⟨more, hback, rfl⟩ := (ih hlater).1 hall
      exact ⟨more, hback, rfl⟩
    · rintro ⟨more, hback, rfl⟩
      exact ⟨token, _, row ++ more, rfl, (ih hlater).2 ⟨more, hback, rfl⟩, rfl⟩

/-- A text without tokens is white space. -/
theorem lexes_nil_right_iff : Lexes text [] ↔ ∀ c ∈ text, isSpace c = true := by
  constructor
  · intro hlexes
    generalize hrow : ([] : List Token) = row at hlexes
    induction hlexes with
    | nil => simp
    | space hspace _ ih => simpa [hspace] using ih hrow
    | token => contradiction
  · intro hspaces
    induction text with
    | nil => exact .nil
    | cons c text ih =>
      rw [List.forall_mem_cons] at hspaces
      exact .space hspaces.1 (ih hspaces.2)

/-- Behind tokens of which the last is no number, a text is cut into tokens as it is alone. -/
theorem lex_append (hfront : lex front = some row)
    (hlast : ∀ token ∈ row.getLast?, token.isNumber = false) (back : List Char) :
    lex (front ++ back) = (lex back).map (row ++ ·) := by
  refine Option.ext fun all => ?_
  simp only [Option.map_eq_some_iff, lex_eq_some_iff,
    lexes_append_iff (lex_eq_some_iff.1 hfront) hlast]

/-! ## Documents -/

/-- The tokens of a document complete it and leave nothing open. -/
theorem ofTokens?_eq_some_iff {document : Json} :
    ofTokens? row = some document ↔ run (.value []) row = some (.after document []) := by
  rw [ofTokens?]
  split
  · simp_all
  · simp_all

/-- A run over a row is a run over its front and then over its back. -/
theorem run_append (start : Expect) (row more : List Token) :
    run start (row ++ more) = (run start row).bind (run · more) := by
  induction row generalizing start with
  | nil => rfl
  | cons token row ih =>
    rw [List.cons_append, run, run]
    cases step start token with
    | none => rfl
    | some next => exact ih next

/-- Behind the tokens of a document no token may stand. -/
theorem ofTokens?_append {document : Json} (hrow : ofTokens? row = some document)
    (more : List Token) : ofTokens? (row ++ more) = if more = [] then some document else none := by
  cases more with
  | nil => rw [List.append_nil, if_pos rfl, hrow]
  | cons token more =>
    rw [ofTokens?, run_append, ofTokens?_eq_some_iff.1 hrow, if_neg (List.cons_ne_nil _ _)]
    rfl

/-- A document that a number completes is that number. -/
theorem eq_number_of_step {start : Expect} {numeral : Numeral} {document : Json}
    (hstep : step start (.number numeral) = some (.after document [])) :
    document = .number numeral := by
  cases start with
  | value stack =>
    simp only [step, beginValue, Option.some.injEq, Expect.after.injEq] at hstep
    exact hstep.1.symm
  | after last stack => rcases stack with _ | ⟨_ | _, _⟩ <;> simp [step] at hstep
  | _ => simp [step, beginValue] at hstep

/-- A document whose tokens end with a number is that number. -/
theorem eq_number_of_getLast? {document : Json} {numeral : Numeral}
    (hrow : ofTokens? row = some document) (hlast : row.getLast? = some (.number numeral)) :
    document = .number numeral := by
  obtain ⟨front, rfl⟩ := List.getLast?_eq_some_iff.1 hlast
  rw [ofTokens?_eq_some_iff, run_append] at hrow
  obtain ⟨before, hfront, hrun⟩ := Option.bind_eq_some_iff.1 hrow
  have hstep : step before (.number numeral) = some (.after document []) := by
    rw [run] at hrun
    split at hrun
    · rename_i next hnext
      rw [hnext, ← hrun, run]
    · contradiction
  exact eq_number_of_step hstep

/-- A document that is no number stays one only with white space behind it. -/
theorem ofChars?_append {document : Json} (hfront : ofChars? front = some document)
    (hnumber : ∀ numeral, document ≠ .number numeral) (back : List Char) :
    ofChars? (front ++ back) = if back.all isSpace then some document else none := by
  obtain ⟨row, hlex, hrow⟩ := Option.bind_eq_some_iff.1 hfront
  have hlast : ∀ token ∈ row.getLast?, token.isNumber = false := by
    intro token htoken
    cases token with
    | number numeral => exact absurd (eq_number_of_getLast? hrow htoken) (hnumber numeral)
    | _ => rfl
  have hspaces : back.all isSpace = true ↔ lex back = some [] := by
    rw [lex_eq_some_iff, lexes_nil_right_iff, List.all_eq_true]
  rw [ofChars?, lex_append hlex hlast]
  cases hback : lex back with
  | none => simp_all
  | some more => simp [hspaces, hback, ofTokens?_append hrow]

/-! ## Objects -/

/-- Behind the fields of an object stands its brace. -/
theorem getLast?_fieldTokens (fields : List (Option String × Json)) :
    (fieldTokens fields).getLast? = some .closeBrace := by
  induction fields with
  | nil => rfl
  | cons field fields ih => simp [fieldTokens, List.getLast?_cons, ih]

/-- The text of an object ends with its brace. -/
theorem getLast?_chars (fields : List (Option String × Json)) :
    (Json.object fields).chars.getLast? = some '\x7d' := by
  have htokens : (Json.object fields).tokens.getLast? = some .closeBrace := by
    cases fields with
    | nil => rfl
    | cons field fields => simp [tokens, List.getLast?_cons, getLast?_fieldTokens]
  obtain ⟨front, hfront⟩ := List.getLast?_eq_some_iff.1 htokens
  rw [chars, hfront, List.flatMap_append, List.getLast?_append]
  rfl

/-- White space at the end of the text of an object is none. -/
theorem eq_nil_of_chars_append {fields : List (Option String × Json)}
    (hchars : (Json.object fields).chars = front ++ back) (hspaces : back.all isSpace = true) :
    back = [] := by
  cases hback : back.getLast? with
  | none => exact List.getLast?_eq_none_iff.1 hback
  | some c =>
    have hlast := getLast?_chars fields
    rw [hchars, List.getLast?_append, hback] at hlast
    obtain rfl : c = '\x7d' := Option.some.inj hlast
    exact absurd (List.all_eq_true.1 hspaces _ (List.mem_of_getLast? hback)) (by decide)

/-- A document is read back from its characters. -/
theorem ofChars?_chars {document : Json} (hregular : document.Regular) :
    ofChars? document.chars = some document := by
  have hparse := parse?_render hregular
  rwa [parse?, render, String.toList_ofList] at hparse

/-- Where the text of an object is cut in two, the front is not a document, or it is a number. -/
theorem eq_nil_of_ofChars? {fields : List (Option String × Json)} {document : Json}
    (hregular : (Json.object fields).Regular) (hchars : (Json.object fields).chars = front ++ back)
    (hfront : ofChars? front = some document) (hnumber : ∀ numeral, document ≠ .number numeral) :
    back = [] := by
  have hwhole := ofChars?_chars hregular
  rw [hchars, ofChars?_append hfront hnumber] at hwhole
  split at hwhole
  · exact eq_nil_of_chars_append hchars ‹_›
  · contradiction

end RegionGossip.Json
