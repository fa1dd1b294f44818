import RegionGossip.Binary64.Text
import RegionGossip.Text.Decimal
import RegionGossip.Text.Quoted
import RegionGossip.Value

/-!
# Values in log messages

Each value is written with the name of its kind around its content, and texts are quoted, so that
the kinds can be told apart.
-/

namespace RegionGossip.Value

/-- A row of parts between two marks. -/
def enclosed (before after : String) (parts : List String) : String :=
  before ++ String.intercalate ", " parts ++ after

mutual

/-- A value as it is written in log messages. -/
def listing : Value → String
  | .null => "Null"
  | .bool flag => if flag then "Bool(true)" else "Bool(false)"
  | .int number => "Int(" ++ Decimal.signedText number.toInt ++ ")"
  | .float x => "Float(" ++ x.text .listing ++ ")"
  | .text content => "Text(" ++ Text.quoted content ++ ")"
  | .list items => enclosed "List([" "])" (listingOfItems items)
  | .map entries => enclosed "Map(\x7b" "\x7d)" (listingOfEntries entries)

/-- The items of a list. -/
def listingOfItems : List Value → List String
  | [] => []
  | item :: rest => item.listing :: listingOfItems rest

/-- The entries of a map. -/
def listingOfEntries : List (String × Value) → List String
  | [] => []
  | (key, value) :: rest =>
    (Text.quoted key ++ ": " ++ value.listing) :: listingOfEntries rest

end

end RegionGossip.Value
