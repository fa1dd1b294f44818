import RegionGossip.Json.Parser
import RegionGossip.Proofs.Json.Lexing

/-!
# Written documents are read back

The automaton takes the tokens of a document in a state that waits for a value to the state in which
this value is complete, with the same arrays and objects open around it. So a document whose numbers
are regular and whose strings have text is the document of its own text.
-/

namespace RegionGossip.Json

mutual

/-- A document that can be written: its numbers are regular and its strings have text. -/
def Regular : Json → Prop
  | .number numeral => numeral.Regular
  | .text content => content.isSome
  | .array items => RegularItems items
  | .object fields => RegularFields fields
  | _ => True

/-- Items that can be written. -/
def RegularItems : List Json → Prop
  | [] => True
  | item :: rest => item.Regular ∧ RegularItems rest

/-- Fields that can be written. -/
def RegularFields : List (Option String × Json) → Prop
  | [] => True
  | (key, value) :: rest => key.isSome ∧ value.Regular ∧ RegularFields rest

end

/-- Tokens after a document: they can be written, and the first of them stops a number. -/
def Follows (rest : List Token) : Prop :=
  RegularRow rest ∧ ∀ next ∈ rest.head?, next.isStop = true

/-- A token that is neither a number nor a string may stand before any tokens. -/
theorem regularRow_cons {token : Token} {rest : List Token} (hregular : token.Regular)
    (hnumber : ∀ numeral, token ≠ .number numeral) (hrest : RegularRow rest) :
    RegularRow (token :: rest) :=
  ⟨hregular, fun numeral heq => absurd heq (hnumber numeral), hrest⟩

/-- A stop may stand before any tokens that can be written. -/
theorem follows_cons {stop : Token} {rest : List Token} (hstop : stop.isStop = true)
    (hrest : RegularRow rest) : Follows (stop :: rest) := by
  have hregular : stop.Regular ∧ ∀ numeral, stop ≠ .number numeral := by
    cases stop <;> simp_all [Token.isStop, Token.Regular]
  refine ⟨regularRow_cons hregular.1 hregular.2 hrest, fun next hnext => ?_⟩
  obtain rfl : stop = next := by simpa using hnext
  exact hstop

mutual

/-- The tokens of a document can be written before whatever follows a document. -/
theorem regularRow_tokens : ∀ {document : Json} {rest : List Token}, document.Regular →
    Follows rest → RegularRow (document.tokens ++ rest)
  | .null, _, _, hrest => regularRow_cons trivial (fun _ => by simp) hrest.1
  | .bool _, _, _, hrest => regularRow_cons trivial (fun _ => by simp) hrest.1
  | .number _, _, hregular, hrest => ⟨hregular, fun _ _ => hrest.2, hrest.1⟩
  | .text _, _, hregular, hrest => regularRow_cons hregular (fun _ => by simp) hrest.1
  | .array [], _, _, hrest =>
    regularRow_cons trivial (fun _ => by simp) (follows_cons rfl hrest.1).1
  | .array (item :: items), rest, hregular, hrest => by
    have hitems := follows_itemTokens hregular.2 hrest.1
    have hitem := regularRow_tokens hregular.1 hitems
    rw [tokens, List.cons_append, List.append_assoc]
    exact regularRow_cons trivial (fun _ => by simp) hitem
  | .object [], _, _, hrest =>
    regularRow_cons trivial (fun _ => by simp) (follows_cons rfl hrest.1).1
  | .object ((key, value) :: fields), rest, hregular, hrest => by
    have hfields := follows_fieldTokens hregular.2.2 hrest.1
    have hvalue := regularRow_tokens hregular.2.1 hfields
    rw [tokens, List.cons_append, List.cons_append, List.cons_append, List.append_assoc]
    exact regularRow_cons trivial (fun _ => by simp)
      (regularRow_cons hregular.1 (fun _ => by simp)
        (regularRow_cons trivial (fun _ => by simp) hvalue))

/-- The remaining items of an array follow its first one. -/
theorem follows_itemTokens : ∀ {items : List Json} {rest : List Token}, RegularItems items →
    RegularRow rest → Follows (itemTokens items ++ rest)
  | [], _, _, hrest => follows_cons rfl hrest
  | item :: items, rest, hregular, hrest => by
    have hitems := follows_itemTokens hregular.2 hrest
    have hitem := regularRow_tokens hregular.1 hitems
    rw [itemTokens, List.cons_append, List.append_assoc]
    exact follows_cons rfl hitem

/-- The remaining fields of an object follow its first one. -/
theorem follows_fieldTokens : ∀ {fields : List (Option String × Json)} {rest : List Token},
    RegularFields fields → RegularRow rest → Follows (fieldTokens fields ++ rest)
  | [], _, _, hrest => follows_cons rfl hrest
  | (key, value) :: fields, rest, hregular, hrest => by
    have hfields := follows_fieldTokens hregular.2.2 hrest
    have hvalue := regularRow_tokens hregular.2.1 hfields
    rw [fieldTokens, List.cons_append, List.cons_append, List.cons_append, List.append_assoc]
    exact follows_cons rfl (regularRow_cons hregular.1 (fun _ => by simp)
      (regularRow_cons trivial (fun _ => by simp) hvalue))

end

/-- A step that succeeds is the first one of a run. -/
theorem run_cons {start next : Expect} {token : Token} (hstep : step start token = some next)
    (rest : List Token) : run start (token :: rest) = run next rest := by
  rw [run, hstep]

/-- The first item of an array begins like any value. -/
theorem run_firstItem (stack : List Frame) (item : Json) (more : List Token) :
    run (.firstItem stack) (item.tokens ++ more) =
      run (.value (.array [] :: stack)) (item.tokens ++ more) := by
  cases item with
  | array items => cases items <;> rfl
  | object fields => cases fields <;> rfl
  | _ => rfl

mutual

/-- The tokens of a document complete a value. -/
theorem run_tokens : ∀ (document : Json) (stack : List Frame) (more : List Token),
    run (.value stack) (document.tokens ++ more) = run (.after document stack) more
  | .null, _, _ => rfl
  | .bool _, _, _ => rfl
  | .number _, _, _ => rfl
  | .text _, _, _ => rfl
  | .array [], _, _ => rfl
  | .array (item :: items), stack, more => by
    have hopen := run_cons (show step (.value stack) .openBracket = some (.firstItem stack) from rfl)
    rw [tokens, List.cons_append, List.append_assoc, hopen, run_firstItem, run_tokens item,
      run_itemTokens items]
    rfl
  | .object [], _, _ => rfl
  | .object ((key, value) :: fields), stack, more => by
    have hopen (row : List Token) : run (.value stack) (.openBrace :: .text key :: .colon :: row) =
      run (.value (.object [] key :: stack)) row := rfl
    rw [tokens, List.cons_append, List.cons_append, List.cons_append, List.append_assoc, hopen,
      run_tokens value, run_fieldTokens fields]
    rfl

/-- The remaining items of an array complete it. -/
theorem run_itemTokens : ∀ (items : List Json) (last : Json) (done : List Json)
    (stack : List Frame) (more : List Token),
    run (.after last (.array done :: stack)) (itemTokens items ++ more) =
      run (.after (.array (done.reverse ++ last :: items)) stack) more
  | [], last, done, stack, more => by
    have hclose := run_cons (show step (.after last (.array done :: stack)) .closeBracket =
      some (.after (.array (last :: done).reverse) stack) from rfl)
    rw [itemTokens, List.singleton_append, hclose, List.reverse_cons]
  | item :: items, last, done, stack, more => by
    have hcomma := run_cons (show step (.after last (.array done :: stack)) .comma =
      some (.value (.array (last :: done) :: stack)) from rfl)
    rw [itemTokens, List.cons_append, List.append_assoc, hcomma, run_tokens item,
      run_itemTokens items, List.reverse_cons, List.append_assoc, List.singleton_append]

/-- The remaining fields of an object complete it. -/
theorem run_fieldTokens : ∀ (fields : List (Option String × Json)) (last : Json)
    (done : List (Option String × Json)) (key : Option String) (stack : List Frame)
    (more : List Token),
    run (.after last (.object done key :: stack)) (fieldTokens fields ++ more) =
      run (.after (.object (done.reverse ++ (key, last) :: fields)) stack) more
  | [], last, done, key, stack, more => by
    have hclose := run_cons (show step (.after last (.object done key :: stack)) .closeBrace =
      some (.after (.object ((key, last) :: done).reverse) stack) from rfl)
    rw [fieldTokens, List.singleton_append, hclose, List.reverse_cons]
  | (next, value) :: fields, last, done, key, stack, more => by
    have hcomma (row : List Token) :
        run (.after last (.object done key :: stack)) (.comma :: .text next :: .colon :: row) =
          run (.value (.object ((key, last) :: done) next :: stack)) row := rfl
    rw [fieldTokens, List.cons_append, List.cons_append, List.cons_append, List.append_assoc,
      hcomma, run_tokens value, run_fieldTokens fields, List.reverse_cons, List.append_assoc,
      List.singleton_append]

end

/-- The tokens of a document are those of no other one. -/
theorem ofTokens?_tokens (document : Json) : ofTokens? document.tokens = some document := by
  have hrun := run_tokens document [] []
  rw [List.append_nil] at hrun
  rw [ofTokens?, hrun]
  rfl

/-- A document is read back from its text. -/
theorem parse?_render {document : Json} (hregular : document.Regular) :
    parse? document.render = some document := by
  have hrow : RegularRow document.tokens := by
    have hfollows : Follows [] := ⟨trivial, fun _ hnext => absurd hnext (by simp)⟩
    simpa using regularRow_tokens hregular hfollows
  rw [parse?, ofChars?, render, String.toList_ofList, chars, lex_flatMap hrow]
  exact ofTokens?_tokens document

end RegionGossip.Json
