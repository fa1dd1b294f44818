import RegionGossip.Json.Lexer

/-!
# The document of a row of tokens

Tokens are taken one at a time by an automaton that keeps the unfinished arrays and objects on a
stack, so no nesting is too deep for it. A row of tokens is a document when the automaton ends with
one complete value and nothing open.
-/

namespace RegionGossip.Json

/-- An array or object that is not closed yet, with what it holds so far in reverse. -/
inductive Frame
  | array (done : List Json)
  | object (done : List (Option String × Json)) (key : Option String)

/-- What the automaton waits for. -/
inductive Expect
  /-- A value must follow. -/
  | value (stack : List Frame)
  /-- An array was opened: a value or the closing bracket follows. -/
  | firstItem (stack : List Frame)
  /-- An object was opened: a key or the closing brace follows. -/
  | firstKey (stack : List Frame)
  /-- A comma in an object was read: a key follows. -/
  | key (done : List (Option String × Json)) (stack : List Frame)
  /-- A key was read: a colon follows. -/
  | colon (done : List (Option String × Json)) (key : Option String) (stack : List Frame)
  /-- A value is complete, and the innermost open array or object goes on or closes. -/
  | after (done : Json) (stack : List Frame)

/-- A token where a value must stand. -/
def beginValue (stack : List Frame) : Token → Option Expect
  | .openBracket => some (.firstItem stack)
  | .openBrace => some (.firstKey stack)
  | .null => some (.after .null stack)
  | .bool flag => some (.after (.bool flag) stack)
  | .number numeral => some (.after (.number numeral) stack)
  | .text content => some (.after (.text content) stack)
  | _ => none

/-- The step of the automaton on one token. -/
def step : Expect → Token → Option Expect
  | .value stack, token => beginValue stack token
  | .firstItem stack, .closeBracket => some (.after (.array []) stack)
  | .firstItem stack, token => beginValue (.array [] :: stack) token
  | .firstKey stack, .closeBrace => some (.after (.object []) stack)
  | .firstKey stack, .text key => some (.colon [] key stack)
  | .key done stack, .text key => some (.colon done key stack)
  | .colon done key stack, .colon => some (.value (.object done key :: stack))
  | .after last (.array done :: stack), .comma => some (.value (.array (last :: done) :: stack))
  | .after last (.array done :: stack), .closeBracket =>
    some (.after (.array (last :: done).reverse) stack)
  | .after last (.object done key :: stack), .comma => some (.key ((key, last) :: done) stack)
  | .after last (.object done key :: stack), .closeBrace =>
    some (.after (.object ((key, last) :: done).reverse) stack)
  | _, _ => none

/-- The automaton run over a row of tokens. -/
def run (start : Expect) : List Token → Option Expect
  | [] => some start
  | token :: rest =>
    match step start token with
    | some next => run next rest
    | none => none

/-- The document of a row of tokens. -/
def ofTokens? (row : List Token) : Option Json :=
  match run (.value []) row with
  | some (.after document []) => some document
  | _ => none

/-- The document of a text. -/
def ofChars? (text : List Char) : Option Json := (lex text).bind ofTokens?

/-- The document of a text. -/
def parse? (text : String) : Option Json := ofChars? text.toList

end RegionGossip.Json
