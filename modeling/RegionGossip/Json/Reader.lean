import RegionGossip.Json.Number
import RegionGossip.SortedMap

/-!
# Typed readers of documents

A reader turns a document into a value of a type, or refuses it. Arrays and objects that are read
into a type may nest to a limited depth, so every reader is told how many levels are left. A record
may be written as an object, with its fields in any order and unknown ones skipped, or as an array
of its fields in order.
-/

namespace RegionGossip.Json

/-- A reader of one type, given the number of levels that may still be opened. -/
abbrev Reader (α : Type) := (depth : Nat) → Json → Option α

/-- How many arrays and objects may be nested in a document that is read. -/
def nestingLimit : Nat := 127

/-- A string. -/
def readText : Reader String
  | _, .text content => content
  | _, _ => none

/-- A truth value. -/
def readBool : Reader Bool
  | _, .bool flag => some flag
  | _, _ => none

/-- A double. -/
def readDoubleField : Reader Binary64
  | _, .number numeral => readFloat numeral
  | _, _ => none

/-- A port number. -/
def readPortField : Reader UInt16
  | _, .number numeral => readPort numeral
  | _, _ => none

/-- A value that may be missing, written as `null`. -/
def readOptional {α : Type} (reader : Reader α) : Reader (Option α)
  | _, .null => some none
  | depth, document => (reader depth document).map some

/-- An array. -/
def readList {α : Type} (reader : Reader α) : Reader (List α)
  | depth + 1, .array items => items.mapM (reader depth)
  | _, _ => none

/-- An object as a map, with its keys read from their text. -/
def readMap {κ α : Type} [Ord κ] [Std.TransOrd κ] (readKey : String → Option κ)
    (reader : Reader α) : Reader (SortedMap κ α)
  | depth + 1, .object fields => do
    let entries ← fields.mapM fun (entry : Option String × Json) => do
      let key ← readKey (← entry.1)
      let value ← reader depth entry.2
      return (key, value)
    return SortedMap.ofList entries
  | _, _ => none

/-- One of several names, written as a string or as an object with the name as its only key. -/
def readChoice {α : Type} (choices : List (String × α)) : Reader α
  | _, .text (some name) => choices.lookup name
  | _ + 1, .object [(some name, .null)] => choices.lookup name
  | _, _ => none

/-- What is done about a field that is not given. -/
inductive Missing
  /-- The record is refused. -/
  | refused
  /-- An object without the field counts as one with `null`; an array is refused. -/
  | null
  /-- The field takes its default. -/
  | default
  deriving DecidableEq, Repr

/-- A field of a record type. -/
structure FieldRule where
  name : String
  missing : Missing
  deriving Repr

/-- The fields that a record was given. -/
abbrev Record := List (String × Json)

/-- The fields of an object that a type knows; one that is given twice is refused. -/
def knownFields (rules : List FieldRule) : List (Option String × Json) → Record → Option Record
  | [], found => some found
  | (none, _) :: _, _ => none
  | (some key, value) :: rest, found =>
    if rules.any (fun rule => rule.name == key) then
      if (found.lookup key).isSome then none else knownFields rules rest ((key, value) :: found)
    else knownFields rules rest found

/-- Adds what is to be added for the fields that an object lacks. -/
def completeObject (rules : List FieldRule) (found : Record) : Option Record :=
  rules.foldlM (fun record rule =>
    if (found.lookup rule.name).isSome then some record
    else match rule.missing with
      | .refused => none
      | .null => some ((rule.name, .null) :: record)
      | .default => some record) found

/-- The fields of an array, in the order of the type; only fields with a default may be missing. -/
def positionalFields : List FieldRule → List Json → Option Record
  | [], [] => some []
  | [], _ :: _ => none
  | rule :: rules, [] => if rule.missing = .default then positionalFields rules [] else none
  | rule :: rules, item :: items =>
    (positionalFields rules items).map ((rule.name, item) :: ·)

/-- The fields of a record, together with the levels that are left for them. -/
def readRecord (rules : List FieldRule) : Reader (Nat × Record)
  | depth + 1, .object fields => do
    let found ← knownFields rules fields []
    return (depth, ← completeObject rules found)
  | depth + 1, .array items => do
    return (depth, ← positionalFields rules items)
  | _, _ => none

/-- A field that must be there. -/
def Record.get {α : Type} (record : Nat × Record) (name : String) (reader : Reader α) : Option α :=
  (record.2.lookup name).bind (reader record.1)

/-- A field with a default. -/
def Record.getD {α : Type} (record : Nat × Record) (name : String) (reader : Reader α)
    (default : α) : Option α :=
  match record.2.lookup name with
  | some value => reader record.1 value
  | none => some default

/-- A document of a type from its text. -/
def readDocument {α : Type} (reader : Reader α) (document : Json) : Option α :=
  reader nestingLimit document

end RegionGossip.Json
