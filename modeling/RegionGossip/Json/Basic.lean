import RegionGossip.Text.Numeral

/-!
# Documents of the JSON format

A document is a tree, a row of tokens, or a text, and this module goes from the tree to the text:
the tokens of a tree stand one after the other without space between them. Numbers keep the digits
they are written with. A string that was read may hold escapes that form no character; such a
string has no text.
-/

namespace RegionGossip

/-- A JSON document. Fields stand in the order they are written and may repeat. -/
inductive Json
  | null
  | bool (flag : Bool)
  | number (numeral : Numeral)
  | text (content : Option String)
  | array (items : List Json)
  | object (fields : List (Option String × Json))
  deriving Inhabited

namespace Json

/-- The lexical elements of a document. -/
inductive Token
  | openBracket
  | closeBracket
  | openBrace
  | closeBrace
  | comma
  | colon
  | null
  | bool (flag : Bool)
  | number (numeral : Numeral)
  | text (content : Option String)
  deriving DecidableEq, Repr

/-- A hexadecimal digit, with small letters. -/
def hexDigit (n : Nat) : Char := Nat.digitChar (n % 16)

/-- How a character stands inside a string: the quote, the backslash and the control characters are
escaped, everything else stands for itself. -/
def escapeChar (c : Char) : List Char :=
  if c = '"' then ['\\', '"']
  else if c = '\\' then ['\\', '\\']
  else if c = '\x08' then ['\\', 'b']
  else if c = '\t' then ['\\', 't']
  else if c = '\n' then ['\\', 'n']
  else if c = '\x0c' then ['\\', 'f']
  else if c = '\r' then ['\\', 'r']
  else if c.toNat < 32 then ['\\', 'u', '0', '0', hexDigit (c.toNat / 16), hexDigit c.toNat]
  else [c]

/-- A string between quotes. A string without text is written as an empty one. -/
def quote (content : Option String) : List Char :=
  '"' :: ((content.getD "").toList.flatMap escapeChar ++ ['"'])

/-- The characters of a token. -/
def Token.chars : Token → List Char
  | .openBracket => ['[']
  | .closeBracket => [']']
  | .openBrace => ['\x7b']
  | .closeBrace => ['\x7d']
  | .comma => [',']
  | .colon => [':']
  | .null => ['n', 'u', 'l', 'l']
  | .bool true => ['t', 'r', 'u', 'e']
  | .bool false => ['f', 'a', 'l', 's', 'e']
  | .number numeral => numeral.chars
  | .text content => quote content

mutual

/-- The tokens of a document. -/
def tokens : Json → List Token
  | .null => [.null]
  | .bool flag => [.bool flag]
  | .number numeral => [.number numeral]
  | .text content => [.text content]
  | .array [] => [.openBracket, .closeBracket]
  | .array (item :: rest) => .openBracket :: (tokens item ++ itemTokens rest)
  | .object [] => [.openBrace, .closeBrace]
  | .object ((key, value) :: rest) =>
    .openBrace :: .text key :: .colon :: (tokens value ++ fieldTokens rest)

/-- The tokens of the items after the first one, and the closing bracket. -/
def itemTokens : List Json → List Token
  | [] => [.closeBracket]
  | item :: rest => .comma :: (tokens item ++ itemTokens rest)

/-- The tokens of the fields after the first one, and the closing brace. -/
def fieldTokens : List (Option String × Json) → List Token
  | [] => [.closeBrace]
  | (key, value) :: rest =>
    .comma :: .text key :: .colon :: (tokens value ++ fieldTokens rest)

end

/-- The characters of a document, without any space. -/
def chars (document : Json) : List Char := document.tokens.flatMap Token.chars

/-- The text of a document, without any space. -/
def render (document : Json) : String := String.ofList document.chars

/-- A string with text. -/
def str (content : String) : Json := .text (some content)

/-- A field with text as its key. -/
def field (key : String) (value : Json) : Option String × Json := (some key, value)

end Json

end RegionGossip
