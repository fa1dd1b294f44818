import RegionGossip.Resource.Summary
import RegionGossip.Timestamp.Text
import RegionGossip.Wire.Verbose

/-!
# Reports and summaries as documents

Reports and summaries are stored as JSON records. Maps that are not given are empty.
-/

namespace RegionGossip

open Json (Reader FieldRule Record)

namespace Document

/-- A document for each entry of a map, under the text of its key. -/
def ofMap {κ α : Type} [Ord κ] (keyText : κ → String) (content : α → Json)
    (map : SortedMap κ α) : Json :=
  .object (map.entries.map fun (key, value) => Json.field (keyText key) (content value))

/-- A document that is `null` for a missing value. -/
def ofOption {α : Type} (content : α → Json) : Option α → Json
  | some value => content value
  | none => .null

/-- A record. -/
def ofFields (fields : List (String × Json)) : Json :=
  .object (fields.map fun (name, value) => Json.field name value)

/-- The name that a choice has in documents. -/
def nameOf {α : Type} [DecidableEq α] (choices : List (String × α)) (choice : α) : String :=
  ((choices.find? fun entry => entry.2 = choice).map Prod.fst).getD ""

/-- The names of windows. -/
def windows : List (String × Window) := [("short", .short), ("long", .long)]

/-- The names of node attributes. -/
def nodeAttributes : List (String × NodeAttribute) :=
  [("cpu", .cpu), ("memory", .memory), ("task_containers", .taskContainers),
    ("queue_length", .queueLength)]

/-- The names of link attributes. -/
def linkAttributes : List (String × LinkAttribute) :=
  [("datarate_tx", .datarateTx), ("datarate_rx", .datarateRx)]

/-- An identifier as a document. -/
def ofIdent {kind : IdentKind} (ident : Ident kind) : Json := Json.str ident.name

/-- The identifier of a document. -/
def readIdent {kind : IdentKind} : Reader (Ident kind) := fun depth document =>
  (Json.readText depth document).map Ident.mk

/-- A time as a document. -/
def ofTimestamp (time : Timestamp) : Json := Json.str time.text

/-- The time of a document. -/
def readTimestamp : Reader Timestamp := fun depth document =>
  (Json.readText depth document).bind Timestamp.parse?

/-- A double as a document. -/
def ofFloat (x : Binary64) : Json := Wire.Verbose.floatDocument x

/-- A map with identifiers as keys. -/
def readIdentMap {α : Type} {kind : IdentKind} (reader : Reader α) :
    Reader (SortedMap (Ident kind) α) :=
  Json.readMap (fun name => some ⟨name⟩) reader

/-- A map with one of several names as each key. -/
def readChoiceMap {κ α : Type} [Ord κ] [Std.TransOrd κ] (choices : List (String × κ))
    (reader : Reader α) : Reader (SortedMap κ α) :=
  Json.readMap (fun name => choices.lookup name) reader

/-- Quantities by node attribute. -/
def ofNodeAttributes : NodeAttributes Binary64 → Json := ofMap (nameOf nodeAttributes) ofFloat

/-- Quantities by link attribute. -/
def ofLinkAttributes : LinkAttributes Binary64 → Json := ofMap (nameOf linkAttributes) ofFloat

/-- The quantities by node attribute of a document. -/
def readNodeAttributes : Reader (NodeAttributes Binary64) :=
  readChoiceMap nodeAttributes Json.readDoubleField

/-- The quantities by link attribute of a document. -/
def readLinkAttributes : Reader (LinkAttributes Binary64) :=
  readChoiceMap linkAttributes Json.readDoubleField

/-- Quantities by service and place. -/
def ofLoad {kind : IdentKind}
    (load : SortedMap ServiceId (SortedMap (Ident kind) (NodeAttributes Binary64))) : Json :=
  ofMap Ident.name (ofMap Ident.name ofNodeAttributes) load

/-- The quantities by service and place of a document. -/
def readLoad {kind : IdentKind} :
    Reader (SortedMap ServiceId (SortedMap (Ident kind) (NodeAttributes Binary64))) :=
  readIdentMap (readIdentMap readNodeAttributes)

/-- Quantities by place and link attribute. -/
def ofLinks {kind : IdentKind} (links : SortedMap (Ident kind) (LinkAttributes Binary64)) : Json :=
  ofMap Ident.name ofLinkAttributes links

/-- The quantities by place and link attribute of a document. -/
def readLinks {kind : IdentKind} : Reader (SortedMap (Ident kind) (LinkAttributes Binary64)) :=
  readIdentMap readLinkAttributes

/-- One quantity by service. -/
def ofServices (times : SortedMap ServiceId Binary64) : Json := ofMap Ident.name ofFloat times

/-- The quantity by service of a document. -/
def readServices : Reader (SortedMap ServiceId Binary64) := readIdentMap Json.readDoubleField

end Document

open Document

namespace Report

/-- The record of a report. -/
def document (report : Report Binary64) : Json :=
  ofFields
    [("node", ofIdent report.node),
     ("timestamp", ofTimestamp report.timestamp),
     ("window", Json.str (nameOf windows report.window)),
     ("compute_capacity", ofNodeAttributes report.computeCapacity),
     ("compute_load", ofLoad report.computeLoad),
     ("compute_demand", ofLoad report.computeDemand),
     ("network_capacity", ofLinks report.networkCapacity),
     ("network_load", ofLinks report.networkLoad),
     ("network_demand", ofLinks report.networkDemand),
     ("average_processing_time", ofServices report.averageProcessingTime)]

/-- The fields of a report's record. -/
def rules : List FieldRule :=
  [⟨"node", .refused⟩, ⟨"timestamp", .refused⟩, ⟨"window", .refused⟩,
   ⟨"compute_capacity", .default⟩, ⟨"compute_load", .default⟩, ⟨"compute_demand", .default⟩,
   ⟨"network_capacity", .default⟩, ⟨"network_load", .default⟩, ⟨"network_demand", .default⟩,
   ⟨"average_processing_time", .default⟩]

/-- The report of a record. -/
def ofDocument : Reader (Report Binary64) := fun depth document => do
  let record ← Json.readRecord rules depth document
  return {
    node := ← Record.get record "node" readIdent
    timestamp := ← Record.get record "timestamp" readTimestamp
    window := ← Record.get record "window" (Json.readChoice windows)
    computeCapacity := ← Record.getD record "compute_capacity" readNodeAttributes ∅
    computeLoad := ← Record.getD record "compute_load" readLoad ∅
    computeDemand := ← Record.getD record "compute_demand" readLoad ∅
    networkCapacity := ← Record.getD record "network_capacity" readLinks ∅
    networkLoad := ← Record.getD record "network_load" readLinks ∅
    networkDemand := ← Record.getD record "network_demand" readLinks ∅
    averageProcessingTime := ← Record.getD record "average_processing_time" readServices ∅ }

end Report

namespace Summary

/-- The record of a summary. -/
def document (summary : Summary Binary64) : Json :=
  ofFields
    [("region", ofIdent summary.region),
     ("window", Json.str (nameOf windows summary.window)),
     ("min_timestamp", ofOption ofTimestamp summary.minTimestamp),
     ("max_timestamp", ofOption ofTimestamp summary.maxTimestamp),
     ("server_capacity", ofNodeAttributes summary.serverCapacity),
     ("server_load", ofLoad summary.serverLoad),
     ("server_demand", ofLoad summary.serverDemand),
     ("network_capacity", ofLinks summary.networkCapacity),
     ("network_load", ofLinks summary.networkLoad),
     ("network_demand", ofLinks summary.networkDemand),
     ("processing_time_numerator", ofServices summary.processingNumerator),
     ("processing_time_denominator", ofServices summary.processingDenominator)]

/-- The fields of a summary's record. -/
def rules : List FieldRule :=
  [⟨"region", .refused⟩, ⟨"window", .refused⟩, ⟨"min_timestamp", .null⟩, ⟨"max_timestamp", .null⟩,
   ⟨"server_capacity", .default⟩, ⟨"server_load", .default⟩, ⟨"server_demand", .default⟩,
   ⟨"network_capacity", .default⟩, ⟨"network_load", .default⟩, ⟨"network_demand", .default⟩,
   ⟨"processing_time_numerator", .default⟩, ⟨"processing_time_denominator", .default⟩]

/-- The summary of a record. -/
def ofDocument : Reader (Summary Binary64) := fun depth document => do
  let record ← Json.readRecord rules depth document
  return {
    region := ← Record.get record "region" readIdent
    window := ← Record.get record "window" (Json.readChoice windows)
    minTimestamp := ← Record.get record "min_timestamp" (Json.readOptional readTimestamp)
    maxTimestamp := ← Record.get record "max_timestamp" (Json.readOptional readTimestamp)
    serverCapacity := ← Record.getD record "server_capacity" readNodeAttributes ∅
    serverLoad := ← Record.getD record "server_load" readLoad ∅
    serverDemand := ← Record.getD record "server_demand" readLoad ∅
    networkCapacity := ← Record.getD record "network_capacity" readLinks ∅
    networkLoad := ← Record.getD record "network_load" readLinks ∅
    networkDemand := ← Record.getD record "network_demand" readLinks ∅
    processingNumerator := ← Record.getD record "processing_time_numerator" readServices ∅
    processingDenominator := ← Record.getD record "processing_time_denominator" readServices ∅ }

end Summary

end RegionGossip
