import RegionGossip.Binary64.Read
import RegionGossip.Timestamp.Calendar
import RegionGossip.Toml.Basic

/-!
# Values without parts of the TOML format

Strings, numbers, truth values, dates and times, each read from the front of a text. Underscores may
stand between two digits of a number, and a number has no superfluous leading zero.
-/

namespace RegionGossip.Toml

/-- A reader of something at the front of a text. -/
abbrev Reader (α : Type) := List Char → Option (α × List Char)

/-- Drops spaces and tabs. -/
def dropSpace (text : List Char) : List Char := text.dropWhile fun c => c == ' ' || c == '\t'

/-- Whether a character may stand in a comment. -/
def isCommentChar (c : Char) : Bool := c == '\t' || (32 ≤ c.toNat && c.toNat != 127)

/-- Drops a comment. -/
def dropComment : List Char → List Char
  | '#' :: rest => rest.dropWhile isCommentChar
  | text => text

/-- What follows the end of a line. -/
def readLineEnd : List Char → Option (List Char)
  | [] => some []
  | '\n' :: rest => some rest
  | '\r' :: '\n' :: rest => some rest
  | _ => none

/-- What follows the end of a line, which may be preceded by space and a comment. -/
def finishLine (text : List Char) : Option (List Char) :=
  readLineEnd (dropComment (dropSpace text))

/-- The value of a hexadecimal digit. -/
def hexValue? (c : Char) : Option Nat :=
  if c.isDigit then some (c.toNat - '0'.toNat)
  else if 'a' ≤ c ∧ c ≤ 'f' then some (c.toNat - 'a'.toNat + 10)
  else if 'A' ≤ c ∧ c ≤ 'F' then some (c.toNat - 'A'.toNat + 10)
  else none

/-- The character of a number of hexadecimal digits; not every number has one. -/
def readCodePoint : (width code : Nat) → Reader Char
  | 0, code, rest =>
    if code < 0xd800 ∨ (0xe000 ≤ code ∧ code < 0x110000) then some (Char.ofNat code, rest) else none
  | width + 1, code, c :: rest => (hexValue? c).bind fun digit =>
    readCodePoint width (16 * code + digit) rest
  | _ + 1, _, [] => none

/-- The character of an escape, after its backslash. -/
def readEscape : Reader Char
  | 'b' :: rest => some ('\x08', rest)
  | 't' :: rest => some ('\t', rest)
  | 'n' :: rest => some ('\n', rest)
  | 'f' :: rest => some ('\x0c', rest)
  | 'r' :: rest => some ('\r', rest)
  | '"' :: rest => some ('"', rest)
  | '\\' :: rest => some ('\\', rest)
  | 'u' :: rest => readCodePoint 4 0 rest
  | 'U' :: rest => readCodePoint 8 0 rest
  | _ => none

/-- The rest of a string in double quotes. Every step takes a character. -/
def readBasic : (fuel : Nat) → List Char → Reader String
  | 0, _, _ => none
  | _ + 1, _, [] => none
  | _ + 1, done, '"' :: rest => some (String.ofList done.reverse, rest)
  | fuel + 1, done, '\\' :: rest =>
    (readEscape rest).bind fun (c, rest) => readBasic fuel (c :: done) rest
  | fuel + 1, done, c :: rest =>
    if isCommentChar c then readBasic fuel (c :: done) rest else none

/-- The rest of a string in single quotes. -/
def readLiteral : List Char → Reader String
  | _, [] => none
  | done, '\'' :: rest => some (String.ofList done.reverse, rest)
  | done, c :: rest => if isCommentChar c then readLiteral (c :: done) rest else none

/-- Drops white space and line ends after a backslash that ends a line; the line must end first. -/
def dropLineBreak (text : List Char) : Option (List Char) :=
  match dropSpace text with
  | '\n' :: rest => some (dropBlankLines rest.length rest)
  | '\r' :: '\n' :: rest => some (dropBlankLines rest.length rest)
  | _ => none
where
  /-- Drops white space and line ends. -/
  dropBlankLines : Nat → List Char → List Char
    | 0, text => text
    | fuel + 1, text =>
      match text with
      | ' ' :: rest => dropBlankLines fuel rest
      | '\t' :: rest => dropBlankLines fuel rest
      | '\n' :: rest => dropBlankLines fuel rest
      | '\r' :: '\n' :: rest => dropBlankLines fuel rest
      | text => text

/-- The rest of a string that may span lines, up to three of its quotes; one or two more of them may
stand directly before the end. Escapes count only between double quotes. -/
def readLong (quote : Char) : (fuel : Nat) → List Char → Reader String
  | 0, _, _ => none
  | _ + 1, _, [] => none
  | fuel + 1, done, c :: rest =>
    if c = quote then
      let count := (c :: rest).takeWhile (· == quote) |>.length
      if count < 3 then readLong quote fuel (c :: done) rest
      else if 5 < count then none
      else
        some (String.ofList (done.reverse ++ List.replicate (count - 3) quote),
          (c :: rest).drop count)
    else if c = '\\' ∧ quote = '"' then
      match dropLineBreak rest with
      | some rest => readLong quote fuel done rest
      | none => (readEscape rest).bind fun (c, rest) => readLong quote fuel (c :: done) rest
    else if c = '\r' then
      match rest with
      | '\n' :: rest => readLong quote fuel ('\n' :: done) rest
      | _ => none
    else if c = '\n' ∨ isCommentChar c then readLong quote fuel (c :: done) rest
    else none

/-- Drops the line end directly after the opening quotes. -/
def dropFirstLineEnd : List Char → List Char
  | '\n' :: rest => rest
  | '\r' :: '\n' :: rest => rest
  | text => text

/-- A string on one line. -/
def readShortString : Reader String
  | '"' :: rest => readBasic (rest.length + 1) [] rest
  | '\'' :: rest => readLiteral [] rest
  | _ => none

/-- A string of any kind. -/
def readString : Reader String
  | '"' :: '"' :: '"' :: rest => readLong '"' (rest.length + 1) [] (dropFirstLineEnd rest)
  | '\'' :: '\'' :: '\'' :: rest => readLong '\'' (rest.length + 1) [] (dropFirstLineEnd rest)
  | text => readShortString text

/-- Digits with single underscores between them. -/
def readGroupedTail (isDigit : Char → Bool) : List Char → List Char → List Char × List Char
  | done, '_' :: c :: rest =>
    if isDigit c then readGroupedTail isDigit (c :: done) rest else (done.reverse, '_' :: c :: rest)
  | done, c :: rest =>
    if isDigit c then readGroupedTail isDigit (c :: done) rest else (done.reverse, c :: rest)
  | done, [] => (done.reverse, [])

/-- At least one digit, with single underscores between digits. -/
def readGrouped (isDigit : Char → Bool) : Reader (List Char)
  | c :: rest => if isDigit c then some (readGroupedTail isDigit [c] rest) else none
  | [] => none

/-- The whole part of a number: a zero alone, or digits that begin with another one. -/
def readWhole : Reader (List Char)
  | '0' :: rest => some (['0'], rest)
  | text => readGrouped Char.isDigit text

/-- The exponent of a number, with or without a sign. -/
def readExponent (text : List Char) : Option (ExponentPart × List Char) :=
  match text with
  | 'e' :: rest => signed rest
  | 'E' :: rest => signed rest
  | _ => none
where
  /-- The sign and the digits. -/
  signed : List Char → Option (ExponentPart × List Char)
    | '+' :: rest => (readGrouped Char.isDigit rest).map fun (row, rest) => (⟨.plus, row⟩, rest)
    | '-' :: rest => (readGrouped Char.isDigit rest).map fun (row, rest) => (⟨.minus, row⟩, rest)
    | rest => (readGrouped Char.isDigit rest).map fun (row, rest) => (⟨.plain, row⟩, rest)

/-- The sign of a number. -/
def readSign : List Char → Bool × List Char
  | '-' :: rest => (true, rest)
  | '+' :: rest => (false, rest)
  | text => (false, text)

/-- A number with a point or an exponent; it may not be too large. -/
def readFloat (text : List Char) : Option (Item × List Char) := do
  let (negative, rest) := readSign text
  let (whole, rest) ← readWhole rest
  let (fraction, rest) ←
    match rest with
    | '.' :: rest => (readGrouped Char.isDigit rest).map fun (row, rest) => (some row, rest)
    | rest => some (none, rest)
  let (exponent, rest) :=
    match readExponent rest with
    | some (part, rest) => (some part, rest)
    | none => (none, rest)
  if fraction.isNone && exponent.isNone then none
  else
    let x := Binary64.ofNumeral ⟨negative, whole, fraction, exponent⟩
    if x == Binary64.infinity false then none else some (.float x, rest)

/-- The words for infinite and undefined numbers. -/
def readSpecial (text : List Char) : Option (Item × List Char) :=
  match readSign text with
  | (negative, 'i' :: 'n' :: 'f' :: rest) => some (.float (Binary64.infinity negative), rest)
  | (_, 'n' :: 'a' :: 'n' :: rest) => some (.float Binary64.undefined, rest)
  | _ => none

/-- An integer within sixty-four bits. -/
def checkedInteger (n : Int) (rest : List Char) : Option (Item × List Char) :=
  if Int64.minValue.toInt ≤ n ∧ n ≤ Int64.maxValue.toInt then some (.integer n, rest) else none

/-- An integer in a base with its own digits. -/
def readBased (base : Nat) (text : List Char) : Option (Item × List Char) := do
  let (row, rest) ← readGrouped (fun c => (hexValue? c).any (· < base)) text
  checkedInteger (row.foldl (fun n c => base * n + (hexValue? c).getD 0) 0 : Nat) rest

/-- An integer. -/
def readInteger : List Char → Option (Item × List Char)
  | '0' :: 'x' :: rest => readBased 16 rest
  | '0' :: 'o' :: rest => readBased 8 rest
  | '0' :: 'b' :: rest => readBased 2 rest
  | text => do
    let (negative, rest) := readSign text
    let (row, rest) ← readWhole rest
    let size : Int := Decimal.value row
    checkedInteger (if negative then -size else size) rest

/-- A number of exactly the given count of digits. -/
def readFixed (count : Nat) (text : List Char) : Option (Nat × List Char) :=
  let row := text.take count
  if row.length = count && row.all Char.isDigit then some (Decimal.value row, text.drop count)
  else none

/-- The character that must stand at the front. -/
def readMark (mark : Char) : List Char → Option (List Char)
  | c :: rest => if c = mark then some rest else none
  | [] => none

/-- A time of day; a minute may have a leap second. -/
def readClock (text : List Char) : Option (Item × List Char) := do
  let (hour, rest) ← readFixed 2 text
  let rest ← readMark ':' rest
  let (minute, rest) ← readFixed 2 rest
  let rest ← readMark ':' rest
  let (second, rest) ← readFixed 2 rest
  let rest ←
    match rest with
    | '.' :: rest =>
      if (rest.takeWhile Char.isDigit).isEmpty then none else some (rest.dropWhile Char.isDigit)
    | rest => some rest
  if hour < 24 ∧ minute < 60 ∧ second ≤ 60 then some (.time, rest) else none

/-- What follows the offset of a time, if there is one. -/
def skipOffset (text : List Char) : Option (List Char) :=
  match text with
  | 'Z' :: rest => some rest
  | 'z' :: rest => some rest
  | '+' :: rest => sized rest
  | '-' :: rest => sized rest
  | rest => some rest
where
  /-- What follows the hours and minutes. -/
  sized (text : List Char) : Option (List Char) := do
    let (hour, rest) ← readFixed 2 text
    let rest ← readMark ':' rest
    let (minute, rest) ← readFixed 2 rest
    if hour < 24 ∧ minute < 60 then some rest else none

/-- A date, with a time of day and an offset where they are given. -/
def readDate (text : List Char) : Option (Item × List Char) := do
  let (year, rest) ← readFixed 4 text
  let rest ← readMark '-' rest
  let (month, rest) ← readFixed 2 rest
  let rest ← readMark '-' rest
  let (day, rest) ← readFixed 2 rest
  if 1 ≤ month ∧ month ≤ 12 ∧ 1 ≤ day ∧ day ≤ daysInMonth year month then
    match rest with
    | c :: clock =>
      if c = 'T' ∨ c = 't' ∨ c = ' ' then
        match readClock clock with
        | some (_, rest) => (skipOffset rest).map fun rest => (.time, rest)
        | none => some (.time, rest)
      else some (.time, rest)
    | [] => some (.time, rest)
  else none

/-- A value without parts. -/
def readScalar (text : List Char) : Option (Item × List Char) :=
  match text with
  | 't' :: 'r' :: 'u' :: 'e' :: rest => some (.bool true, rest)
  | 'f' :: 'a' :: 'l' :: 's' :: 'e' :: rest => some (.bool false, rest)
  | '"' :: _ => (readString text).map fun (content, rest) => (.text content, rest)
  | '\'' :: _ => (readString text).map fun (content, rest) => (.text content, rest)
  | _ =>
    (((readDate text <|> readClock text) <|> readSpecial text) <|> readFloat text) <|>
      readInteger text

end RegionGossip.Toml
