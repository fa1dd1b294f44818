import RegionGossip.Plan.Builder
import RegionGossip.Resource.Document

/-!
# Plans and live states as documents

Plans and the state of a region are stored as JSON records. Flags that are not given are off, and
maps that are not given are empty.
-/

namespace RegionGossip

open Json (Reader FieldRule Record)
open Document

/-- The names of statuses. -/
def Document.statuses : List (String × Status) :=
  [("starting", .starting), ("running", .running), ("stopping", .stopping), ("stopped", .stopped),
    ("unknown", .unknown)]

namespace ContainerState

/-- The record of a container. -/
def document (state : ContainerState) : Json :=
  ofFields
    [("service", ofIdent state.service), ("status", Json.str (nameOf statuses state.status))]

/-- The fields of a container's record. -/
def rules : List FieldRule := [⟨"service", .refused⟩, ⟨"status", .refused⟩]

/-- The container of a record. -/
def ofDocument : Reader ContainerState := fun depth document => do
  let record ← Json.readRecord rules depth document
  return {
    service := ← Record.get record "service" readIdent
    status := ← Record.get record "status" (Json.readChoice statuses) }

end ContainerState

namespace LiveState

/-- The record of a region's state. -/
def document (live : LiveState) : Json :=
  ofFields
    [("region", ofIdent live.region),
     ("nodes", ofMap Ident.name (ofMap Ident.name ContainerState.document) live.nodes)]

/-- The fields of the record of a region's state. -/
def rules : List FieldRule := [⟨"region", .refused⟩, ⟨"nodes", .default⟩]

/-- The state of a record. -/
def ofDocument : Reader LiveState := fun depth document => do
  let record ← Json.readRecord rules depth document
  return {
    region := ← Record.get record "region" readIdent
    nodes := ←
      Record.getD record "nodes" (readIdentMap (readIdentMap ContainerState.ofDocument)) ∅ }

end LiveState

namespace PlanEntry

/-- The record of an entry. -/
def document (entry : PlanEntry) : Json :=
  ofFields
    [("container", ofOption ofIdent entry.container),
     ("service", ofIdent entry.service),
     ("weight", ofFloat entry.weight),
     ("stop_traffic_to", .bool entry.stopTraffic),
     ("stop", .bool entry.stop)]

/-- The fields of an entry's record. -/
def rules : List FieldRule :=
  [⟨"container", .null⟩, ⟨"service", .refused⟩, ⟨"weight", .refused⟩,
   ⟨"stop_traffic_to", .default⟩, ⟨"stop", .default⟩]

/-- The entry of a record. -/
def ofDocument : Reader PlanEntry := fun depth document => do
  let record ← Json.readRecord rules depth document
  return {
    container := ← Record.get record "container" (Json.readOptional readIdent)
    service := ← Record.get record "service" readIdent
    weight := ← Record.get record "weight" Json.readDoubleField
    stopTraffic := ← Record.getD record "stop_traffic_to" Json.readBool false
    stop := ← Record.getD record "stop" Json.readBool false }

end PlanEntry

namespace Plan

/-- The record of a plan. -/
def document (plan : Plan) : Json :=
  ofFields
    [("region", ofIdent plan.region),
     ("timestamp", ofTimestamp plan.timestamp),
     ("service_plan",
      ofMap Ident.name (fun entries => .array (entries.map PlanEntry.document)) plan.services),
     ("overflow_plan", ofMap Ident.name (ofMap Ident.name ofFloat) plan.overflow)]

/-- The fields of a plan's record. -/
def rules : List FieldRule :=
  [⟨"region", .refused⟩, ⟨"timestamp", .refused⟩, ⟨"service_plan", .default⟩,
   ⟨"overflow_plan", .default⟩]

/-- The plan of a record. -/
def ofDocument : Reader Plan := fun depth document => do
  let record ← Json.readRecord rules depth document
  return {
    region := ← Record.get record "region" readIdent
    timestamp := ← Record.get record "timestamp" readTimestamp
    services := ←
      Record.getD record "service_plan" (readIdentMap (Json.readList PlanEntry.ofDocument)) ∅
    overflow := ←
      Record.getD record "overflow_plan" (readIdentMap (readIdentMap Json.readDoubleField)) ∅ }

end Plan

end RegionGossip
