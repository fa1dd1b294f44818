import RegionGossip.Toml.Scalar

/-!
# TOML texts

A text is read line by line: empty lines and comments, headers that open a table, and keys with
their values. Arrays and tables in braces may be nested to a limited depth.
-/

namespace RegionGossip.Toml

/-- How many arrays and tables in braces may be nested, and how many parts a key may have. -/
def nestingLimit : Nat := 79

/-- Whether a character may stand in a key without quotes. -/
def isBareKeyChar (c : Char) : Bool := c.isAlphanum || c == '_' || c == '-'

/-- One part of a key. -/
def readKeyPart (text : List Char) : Option (String × List Char) :=
  match text with
  | '"' :: _ => readShortString text
  | '\'' :: _ => readShortString text
  | _ =>
    let row := text.takeWhile isBareKeyChar
    if row.isEmpty then none else some (String.ofList row, text.drop row.length)

/-- A key of several parts with dots between them; its last part is given apart. -/
def readKey : (fuel : Nat) → List String → Reader (List String × String)
  | 0, _, _ => none
  | fuel + 1, done, text => do
    let (name, rest) ← readKeyPart (dropSpace text)
    match dropSpace rest with
    | '.' :: rest => readKey fuel (name :: done) rest
    | rest => return ((done.reverse, name), rest)

/-- Drops white space, line ends and comments between the items of an array. -/
def dropGap : (fuel : Nat) → List Char → List Char
  | 0, text => text
  | fuel + 1, text =>
    match text with
    | ' ' :: rest => dropGap fuel rest
    | '\t' :: rest => dropGap fuel rest
    | '\n' :: rest => dropGap fuel rest
    | '\r' :: '\n' :: rest => dropGap fuel rest
    | '#' :: rest =>
      match rest.dropWhile isCommentChar with
      | '\n' :: rest => dropGap fuel rest
      | '\r' :: '\n' :: rest => dropGap fuel rest
      | rest => rest
    | text => text

mutual

/-- A value. Every array and table in braces that is opened takes one level of depth. -/
def readValue : (fuel depth : Nat) → Reader Item
  | 0, _, _ => none
  | fuel + 1, depth, '[' :: rest =>
    match depth with
    | 0 => none
    | depth + 1 =>
      (readItems fuel depth [] rest).map fun (items, rest) => (.array items, rest)
  | fuel + 1, depth, '\x7b' :: rest =>
    match depth with
    | 0 => none
    | depth + 1 =>
      match dropSpace rest with
      | '\x7d' :: rest => some (.inlineTable [], rest)
      | rest =>
        (readFields fuel depth [] rest).map fun (entries, rest) => (.inlineTable entries, rest)
  | _ + 1, _, text => readScalar text

/-- The items of an array and its closing bracket. -/
def readItems : (fuel depth : Nat) → List Item → Reader (List Item)
  | 0, _, _, _ => none
  | fuel + 1, depth, done, text =>
    match dropGap text.length text with
    | ']' :: rest => some (done.reverse, rest)
    | text => do
      let (item, rest) ← readValue fuel depth text
      match dropGap rest.length rest with
      | ',' :: rest => readItems fuel depth (item :: done) rest
      | ']' :: rest => return ((item :: done).reverse, rest)
      | _ => none

/-- The fields of a table in braces and its closing brace. -/
def readFields : (fuel depth : Nat) → Entries → Reader Entries
  | 0, _, _, _ => none
  | fuel + 1, depth, done, text => do
    let ((path, name), rest) ← readKey nestingLimit [] text
    let rest ← readMark '=' rest
    let (item, rest) ← readValue fuel depth (dropSpace rest)
    let entries ← addValue path name item .explicit done
    match dropSpace rest with
    | ',' :: rest => readFields fuel depth entries rest
    | '\x7d' :: rest => return (entries, rest)
    | _ => none

end

/-- What has been read of a text: the header that was opened last and all items. -/
structure Progress where
  header : List String
  entries : Entries

/-- A line that opens a table, after its first bracket. -/
def readHeader (progress : Progress) (text : List Char) : Option (Progress × List Char) := do
  let (isRow, text) := match text with
    | '[' :: rest => (true, rest)
    | rest => (false, rest)
  let ((path, name), rest) ← readKey nestingLimit [] text
  let rest ← readMark ']' rest
  let rest ← if isRow then readMark ']' rest else some rest
  let rest ← finishLine rest
  let entries ←
    if isRow then openRow path name progress.entries else openTable path name progress.entries
  return (⟨path ++ [name], entries⟩, rest)

/-- A line with a key and its value. -/
def readKeyValue (progress : Progress) (text : List Char) : Option (Progress × List Char) := do
  let ((path, name), rest) ← readKey nestingLimit [] text
  let rest ← readMark '=' rest
  let (item, rest) ← readValue (2 * rest.length + 2) nestingLimit (dropSpace rest)
  let rest ← finishLine rest
  let entries ← addToOpened progress.header path name item progress.entries
  return ({ progress with entries }, rest)

/-- All lines of a text. Every line takes a character. -/
def readLines : (fuel : Nat) → Progress → List Char → Option Entries
  | 0, _, _ => none
  | fuel + 1, progress, text =>
    match dropSpace text with
    | [] => some progress.entries
    | '\n' :: rest => readLines fuel progress rest
    | '\r' :: '\n' :: rest => readLines fuel progress rest
    | '#' :: rest => (readLineEnd (rest.dropWhile isCommentChar)).bind (readLines fuel progress)
    | '[' :: rest =>
      (readHeader progress rest).bind fun (progress, rest) => readLines fuel progress rest
    | text => (readKeyValue progress text).bind fun (progress, rest) => readLines fuel progress rest

/-- The items of a text. A mark of the byte order may stand in front. -/
def parse? (text : String) : Option Entries :=
  let row := match text.toList with
    | '\ufeff' :: rest => rest
    | row => row
  readLines (row.length + 1) ⟨[], []⟩ row

end RegionGossip.Toml
