import RegionGossip.Error
import RegionGossip.Toml.Parser

/-!
# Settings files

Settings are kept in a TOML file. Names that are not known are passed over, and a whole number may
stand for the loss fraction.
-/

namespace RegionGossip.Settings

/-- The loss fraction of an item. -/
def readFraction : Toml.Item → Option Binary64
  | .float x => some x
  | .integer n => some (Binary64.ofInt n)
  | _ => none

/-- The flag of an item. -/
def readFlag : Toml.Item → Option Bool
  | .bool flag => some flag
  | _ => none

/-- The item of a name, or the default where there is none. -/
def readItem {α : Type} (entries : Toml.Entries) (name : String) (reader : Toml.Item → Option α)
    (default : α) : Option α :=
  match entries.lookup name with
  | some item => reader item
  | none => some default

/-- The settings among some items. -/
def ofEntries (entries : Toml.Entries) : Option Settings := do
  let fallback : Settings := {}
  let dropFraction ←
    readItem entries "message_drop_percentage" readFraction fallback.dropFraction
  let compact ← readItem entries "use_compact_serialization" readFlag fallback.compact
  let compress ← readItem entries "use_compression" readFlag fallback.compress
  return ⟨dropFraction, compact, compress⟩

/-- The settings of a TOML text. -/
def ofToml (text : String) : Except MeshError Settings :=
  match (Toml.parse? text).bind ofEntries with
  | some settings => settings.check
  | none => .error (.settings .malformed)

/-- The settings of a file, given its path and its content if it can be read. -/
def ofFile (path : String) (content : Option String) : Except MeshError Settings :=
  match content with
  | some text => ofToml text
  | none => .error (.settings (.unreadable path))

end RegionGossip.Settings
