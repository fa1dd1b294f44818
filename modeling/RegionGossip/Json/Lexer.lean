import RegionGossip.Json.Basic

/-!
# Tokens of a JSON text

The text is cut into tokens from left to right, with white space between them dropped. A string may
hold any escape of the right form; two escapes that together form one character beyond the basic
plane are joined, and a string with an escape that forms no character is kept without its text, so
that a reader which skips it need not refuse it.
-/

namespace RegionGossip.Json

/-- The four characters that may stand between tokens. -/
def isSpace (c : Char) : Bool := c = ' ' || c = '\n' || c = '\t' || c = '\r'

/-- The value of a hexadecimal digit. -/
def hexValue? (c : Char) : Option Nat :=
  if c.isDigit then some (c.toNat - '0'.toNat)
  else if 'a' ≤ c ∧ c ≤ 'f' then some (c.toNat - 'a'.toNat + 10)
  else if 'A' ≤ c ∧ c ≤ 'F' then some (c.toNat - 'A'.toNat + 10)
  else none

/-- The value of four hexadecimal digits. -/
def hexUnit? (a b c d : Char) : Option Nat := do
  return ((← hexValue? a) * 16 + (← hexValue? b)) * 256 + ((← hexValue? c) * 16 + (← hexValue? d))

/-- What has been read of a string: its characters in reverse, the first half of a pair that waits
for its second, and whether some escape formed no character. -/
structure TextScan where
  chars : List Char
  waiting : Option Nat
  broken : Bool

namespace TextScan

/-- A half that is not followed by its second one forms no character. -/
def settle (scan : TextScan) : TextScan :=
  { scan with waiting := none, broken := scan.broken || scan.waiting.isSome }

/-- A whole character follows. -/
def push (scan : TextScan) (c : Char) : TextScan :=
  let settled := scan.settle
  { settled with chars := c :: settled.chars }

/-- A unit of sixteen bits follows. -/
def pushUnit (scan : TextScan) (code : Nat) : TextScan :=
  if 0xd800 ≤ code ∧ code < 0xdc00 then { scan.settle with waiting := some code }
  else if 0xdc00 ≤ code ∧ code < 0xe000 then
    match scan.waiting with
    | some first =>
      { scan with
        chars := Char.ofNat (0x10000 + (first - 0xd800) * 0x400 + (code - 0xdc00)) :: scan.chars
        waiting := none }
    | none => { scan with broken := true }
  else scan.push (Char.ofNat code)

/-- The text of the string, unless an escape in it formed no character. -/
def finish (scan : TextScan) : Option String :=
  let settled := scan.settle
  if settled.broken then none else some (String.ofList settled.chars.reverse)

end TextScan

/-- The character that an escape of one letter stands for. -/
def simpleEscape? (c : Char) : Option Char :=
  if c = '"' then some '"'
  else if c = '\\' then some '\\'
  else if c = '/' then some '/'
  else if c = 'b' then some '\x08'
  else if c = 'f' then some '\x0c'
  else if c = 'n' then some '\n'
  else if c = 'r' then some '\r'
  else if c = 't' then some '\t'
  else none

/-- The rest of a string after its opening quote, and what follows the closing one. -/
def scanText : List Char → TextScan → Option (Option String × List Char)
  | [], _ => none
  | '"' :: rest, scan => some (scan.finish, rest)
  | '\\' :: 'u' :: a :: b :: c :: d :: rest, scan =>
    match hexUnit? a b c d with
    | some code => scanText rest (scan.pushUnit code)
    | none => none
  | '\\' :: letter :: rest, scan =>
    match simpleEscape? letter with
    | some c => scanText rest (scan.push c)
    | none => none
  | c :: rest, scan => if c.toNat < 32 then none else scanText rest (scan.push c)

/-- A row of digits and what follows it. -/
def spanDigits (row : List Char) : List Char × List Char :=
  (row.takeWhile Char.isDigit, row.dropWhile Char.isDigit)

/-- The whole part of a number: a zero alone, or digits that begin with another one. -/
def scanWhole : List Char → Option (List Char × List Char)
  | '0' :: rest => some (['0'], rest)
  | row =>
    match spanDigits row with
    | ([], _) => none
    | (digits, rest) => some (digits, rest)

/-- The point and at least one digit, if a point follows. -/
def scanFraction : List Char → Option (Option (List Char) × List Char)
  | '.' :: rest =>
    match spanDigits rest with
    | ([], _) => none
    | (digits, rest) => some (some digits, rest)
  | rest => some (none, rest)

/-- The digits of an exponent after its sign. -/
def scanExponentDigits (sign : ExponentSign) (row : List Char) :
    Option (Option ExponentPart × List Char) :=
  match spanDigits row with
  | ([], _) => none
  | (digits, rest) => some (some ⟨sign, digits⟩, rest)

/-- The sign and the digits of an exponent. -/
def scanSignedExponent : List Char → Option (Option ExponentPart × List Char)
  | '+' :: rest => scanExponentDigits .plus rest
  | '-' :: rest => scanExponentDigits .minus rest
  | rest => scanExponentDigits .plain rest

/-- The exponent, if one follows. -/
def scanExponent : List Char → Option (Option ExponentPart × List Char)
  | 'e' :: rest => scanSignedExponent rest
  | 'E' :: rest => scanSignedExponent rest
  | rest => some (none, rest)

/-- A number after its sign. -/
def scanUnsigned (negative : Bool) (row : List Char) : Option (Numeral × List Char) := do
  let (whole, rest) ← scanWhole row
  let (fraction, rest) ← scanFraction rest
  let (exponent, rest) ← scanExponent rest
  return (⟨negative, whole, fraction, exponent⟩, rest)

/-- A number. -/
def scanNumber : List Char → Option (Numeral × List Char)
  | '-' :: rest => scanUnsigned true rest
  | row => scanUnsigned false row

/-- The token at the front of a text that begins with no space. -/
def scanToken : List Char → Option (Token × List Char)
  | '[' :: rest => some (.openBracket, rest)
  | ']' :: rest => some (.closeBracket, rest)
  | '\x7b' :: rest => some (.openBrace, rest)
  | '\x7d' :: rest => some (.closeBrace, rest)
  | ',' :: rest => some (.comma, rest)
  | ':' :: rest => some (.colon, rest)
  | 'n' :: 'u' :: 'l' :: 'l' :: rest => some (.null, rest)
  | 't' :: 'r' :: 'u' :: 'e' :: rest => some (.bool true, rest)
  | 'f' :: 'a' :: 'l' :: 's' :: 'e' :: rest => some (.bool false, rest)
  | '"' :: rest => (scanText rest ⟨[], none, false⟩).map fun (content, rest) => (.text content, rest)
  | row => (scanNumber row).map fun (numeral, rest) => (.number numeral, rest)

/-- All tokens of a text. Every token takes a character, so fuel for each character is enough. -/
def scanTokens : (fuel : Nat) → List Char → List Token → Option (List Token)
  | _, [], done => some done.reverse
  | 0, _ :: _, _ => none
  | fuel + 1, c :: rest, done =>
    if isSpace c then scanTokens fuel rest done
    else
      match scanToken (c :: rest) with
      | some (token, rest) => scanTokens fuel rest (token :: done)
      | none => none

/-- The tokens of a text, unless some part of it is no token. -/
def lex (text : List Char) : Option (List Token) := scanTokens text.length text []

end RegionGossip.Json
