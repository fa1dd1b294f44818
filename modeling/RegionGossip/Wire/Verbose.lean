import RegionGossip.Binary64.Text
import RegionGossip.Json.Parser
import RegionGossip.Json.Reader
import RegionGossip.Value

/-!
# The verbose form of values

Each value is a JSON object whose only key names its shape; the shape without content is a string.
Floats are written in the fewest digits that read back, and a float that is no number is written
as `null`, which is not read back.
-/

namespace RegionGossip.Wire.Verbose

open RegionGossip (Json)

/-- A float as a JSON number. -/
def floatDocument (x : Binary64) : Json :=
  if x.isFinite then .number (Binary64.Layout.wire.numeral x) else .null

/-- An integer as a JSON number. -/
def intDocument (n : Int) : Json := .number (Numeral.ofInt n)

/-- A document under the name of its shape. -/
def tagged (shape : String) (content : Json) : Json := .object [Json.field shape content]

mutual

/-- The document of a value. -/
def document : Value → Json
  | .null => Json.str "Null"
  | .bool flag => tagged "Bool" (.bool flag)
  | .int number => tagged "Int" (intDocument number.toInt)
  | .float number => tagged "Float" (floatDocument number)
  | .text content => tagged "Text" (Json.str content)
  | .list items => tagged "List" (.array (itemDocuments items))
  | .map entries => tagged "Map" (.object (fieldDocuments entries))

/-- The documents of the items of a list. -/
def itemDocuments : List Value → List Json
  | [] => []
  | item :: rest => document item :: itemDocuments rest

/-- The fields of the entries of a map. -/
def fieldDocuments : List (String × Value) → List (Option String × Json)
  | [] => []
  | (key, value) :: rest => Json.field key (document value) :: fieldDocuments rest

end

/-- The document of a payload. -/
def payloadDocument (payload : Payload) : Json := .object (fieldDocuments payload.entries)

/-- An entry from a field whose key has text. -/
def readEntry (reader : Json → Option Value) (entry : Option String × Json) :
    Option (String × Value) := do
  let key ← entry.1
  let value ← reader entry.2
  return (key, value)

/-- The value of a document, before its maps are put into order. -/
def readValue : Json.Reader Value
  | _, .text (some "Null") => some .null
  | depth + 1, .object [(some shape, content)] =>
    match shape, content with
    | "Null", .null => some .null
    | "Bool", .bool flag => some (.bool flag)
    | "Int", .number numeral => (Json.readInt64 numeral).map .int
    | "Float", .number numeral => (Json.readFloat numeral).map .float
    | "Text", .text (some text) => some (.text text)
    | "List", .array items =>
      match depth with
      | 0 => none
      | inner + 1 => (items.mapM (readValue inner)).map .list
    | "Map", .object fields =>
      match depth with
      | 0 => none
      | inner + 1 => (fields.mapM (readEntry (readValue inner))).map .map
    | _, _ => none
  | _, _ => none

/-- The value of a document, in normal form. -/
def readNormalValue : Json.Reader Value := fun depth content =>
  (readValue depth content).map Value.normalize

/-- The payload of a document. -/
def readPayload : Json.Reader Payload
  | depth + 1, .object fields =>
    (fields.mapM (readEntry (readValue depth))).map Payload.ofEntries
  | _, _ => none

end RegionGossip.Wire.Verbose
