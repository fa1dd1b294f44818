import RegionGossip.Plan.Basic
import RegionGossip.Plan.Live

/-!
# Building a plan

A builder is a working copy of a region's plan. It starts from what runs in the region, carries over
what the last plan asked of those containers, and takes changes one by one. Nothing is compared with
the region until the plan is frozen.
-/

namespace RegionGossip

/-- A working copy of a plan. -/
structure PlanBuilder where
  region : RegionId
  services : SortedMap NodeId (List PlanEntry)

namespace PlanBuilder

/-- A builder without entries. -/
def empty (region : RegionId) : PlanBuilder := ⟨region, ∅⟩

/-- The entries of a node. -/
def containers (builder : PlanBuilder) (node : NodeId) : List PlanEntry :=
  (builder.services.get? node).getD []

/-- An entry is added at the end of a node's list. -/
def push (builder : PlanBuilder) (node : NodeId) (entry : PlanEntry) : PlanBuilder :=
  { builder with services := builder.services.upsert node fun held => held.getD [] ++ [entry] }

/-- The entry of a container that runs, with weight and flags from the last plan where it had the
container on the same node. -/
def carryOver (previous : Plan) (placement : Placement) : PlanEntry :=
  match (previous.containers placement.node).find? (·.isFor placement.container) with
  | some entry =>
    { entry with container := some placement.container, service := placement.state.service }
  | none => PlanEntry.existing placement.container placement.state.service

/-- A builder for what is active in a region. -/
def ofPlan (previous : Plan) (live : LiveState) : PlanBuilder :=
  live.active.foldl (fun builder placement =>
    builder.push placement.node (carryOver previous placement)) (empty live.region)

/-- A weight is finite and not below zero. -/
def isWeight (weight : Binary64) : Bool := weight.isFinite && Binary64.zero.atMost weight

/-- A new container of a service is asked for. -/
def addService (builder : PlanBuilder) (node : NodeId) (service : ServiceId) (weight : Binary64) :
    Except PlanError PlanBuilder :=
  if isWeight weight then .ok (builder.push node (PlanEntry.toCreate service weight))
  else .error (.invalidWeight weight)

/-- The first entry of a container is changed; the others stay. -/
def changeFirst (container : ContainerId) (change : PlanEntry → PlanEntry) :
    List PlanEntry → List PlanEntry
  | [] => []
  | entry :: rest =>
    if entry.isFor container then change entry :: rest
    else entry :: changeFirst container change rest

/-- What is asked of a container on a node is changed. -/
def change (builder : PlanBuilder) (node : NodeId) (container : ContainerId)
    (change : PlanEntry → PlanEntry) : Except PlanError PlanBuilder :=
  if (builder.containers node).any (·.isFor container) then
    .ok { builder with services := builder.services.modify node (changeFirst container change) }
  else .error (.unknownContainer node container)

/-- A container gets no more traffic, or gets it again. -/
def setStopTraffic (builder : PlanBuilder) (node : NodeId) (container : ContainerId)
    (stopTraffic : Bool) : Except PlanError PlanBuilder :=
  builder.change node container fun entry => { entry with stopTraffic }

/-- A container is to be stopped, or not any more. -/
def setStop (builder : PlanBuilder) (node : NodeId) (container : ContainerId) (stop : Bool) :
    Except PlanError PlanBuilder :=
  builder.change node container fun entry => { entry with stop }

/-- The weight of a container is set. The weight is looked at before the container. -/
def setWeight (builder : PlanBuilder) (node : NodeId) (container : ContainerId)
    (weight : Binary64) : Except PlanError PlanBuilder :=
  if isWeight weight then builder.change node container fun entry => { entry with weight }
  else .error (.invalidWeight weight)

/-- The first container that stands in a list after it has stood there before. -/
def firstRepeated : (seen : List ContainerId) → List ContainerId → Option ContainerId
  | _, [] => none
  | seen, container :: rest =>
    if seen.contains container then some container
    else firstRepeated (container :: seen) rest

/-- The first container that is listed twice on one node. -/
def repeated? (builder : PlanBuilder) : Option PlanFault :=
  builder.services.entries.findSome? fun (node, entries) =>
    (firstRepeated [] (entries.filterMap PlanEntry.container)).map fun container =>
      .repeated container node

/-- The first active container that has no entry. -/
def missing? (builder : PlanBuilder) (live : LiveState) : Option PlanFault :=
  (live.active.find? fun placement =>
    !(builder.containers placement.node).any (·.isFor placement.container)).map fun placement =>
      .missing placement.container placement.node

/-- What is wrong with the service of an entry. -/
def wrongService? (live : LiveState) (node : NodeId) (entry : PlanEntry) : Option PlanFault := do
  let container ← entry.container
  let state ← live.container? node container
  if state.service != entry.service then
    some (.wrongService container node state.service entry.service)
  else none

/-- The first entry whose container runs another service. -/
def misassigned? (builder : PlanBuilder) (live : LiveState) : Option PlanFault :=
  builder.services.entries.findSome? fun (node, entries) =>
    entries.findSome? (wrongService? live node)

/-- The first fault of a builder with regard to what runs in a region. -/
def fault? (builder : PlanBuilder) (live : LiveState) : Option PlanFault :=
  if live.region != builder.region then some (.wrongRegion builder.region live.region)
  else (builder.repeated? <|> builder.missing? live) <|> builder.misassigned? live

/-- The finished plan, if it fits what runs in the region. -/
def freeze (builder : PlanBuilder) (live : LiveState) (overflow : OverflowPlan)
    (timestamp : Timestamp) : Except PlanError Plan :=
  match builder.fault? live with
  | some fault => .error (.invalid fault)
  | none => .ok ⟨builder.region, timestamp, builder.services, overflow⟩

end PlanBuilder

end RegionGossip
