import RegionGossip.Address
import RegionGossip.Resource.Document
import RegionGossip.Settings

/-!
# Settings and addresses as documents

Settings are stored as JSON records in which every field may be left out.
-/

namespace RegionGossip

open Json (Reader FieldRule Record)
open Document

namespace Settings

/-- The record of settings. -/
def document (settings : Settings) : Json :=
  ofFields
    [("message_drop_percentage", ofFloat settings.dropFraction),
     ("use_compact_serialization", .bool settings.compact),
     ("use_compression", .bool settings.compress)]

/-- The fields of the record of settings. -/
def rules : List FieldRule :=
  [⟨"message_drop_percentage", .default⟩, ⟨"use_compact_serialization", .default⟩,
   ⟨"use_compression", .default⟩]

/-- The settings of a record. -/
def ofDocument : Reader Settings := fun depth document => do
  let record ← Json.readRecord rules depth document
  return {
    dropFraction := ←
      Record.getD record "message_drop_percentage" Json.readDoubleField Binary64.zero
    compact := ← Record.getD record "use_compact_serialization" Json.readBool true
    compress := ← Record.getD record "use_compression" Json.readBool false }

end Settings

namespace Address

/-- The record of an address. -/
def document (address : Address) : Json :=
  ofFields
    [("host", Json.str address.host), ("port", Wire.Verbose.intDocument address.port.toNat)]

/-- The fields of an address's record. -/
def rules : List FieldRule := [⟨"host", .refused⟩, ⟨"port", .refused⟩]

/-- The address of a record. -/
def ofDocument : Reader Address := fun depth document => do
  let record ← Json.readRecord rules depth document
  return {
    host := ← Record.get record "host" Json.readText
    port := ← Record.get record "port" Json.readPortField }

end Address

end RegionGossip
