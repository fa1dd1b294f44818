import RegionGossip.Text.Printable

/-!
# Text quoted in messages

A text is quoted so that it can be read off a message without doubt: between double quotes, with
quotes and backslashes escaped, the common control characters by a letter, and every other character
without a shape of its own by its number.
-/

namespace RegionGossip.Text

/-- A number in hexadecimal digits, with small letters. -/
def hexadecimal (n : Nat) : List Char := Nat.toDigits 16 n

/-- How a character stands in a quoted text. -/
def quoteChar (c : Char) : List Char :=
  if c = '"' then ['\\', '"']
  else if c = '\\' then ['\\', '\\']
  else if c = '\n' then ['\\', 'n']
  else if c = '\r' then ['\\', 'r']
  else if c = '\t' then ['\\', 't']
  else if c = '\x00' then ['\\', '0']
  else if isPrintable c then [c]
  else ['\\', 'u', '\x7b'] ++ hexadecimal c.toNat ++ ['\x7d']

/-- A text between quotes. -/
def quoted (content : String) : String :=
  String.ofList ('"' :: (content.toList.flatMap quoteChar ++ ['"']))

end RegionGossip.Text
