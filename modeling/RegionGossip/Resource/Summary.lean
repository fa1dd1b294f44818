import RegionGossip.Binary64.Text
import RegionGossip.Resource.Report
import RegionGossip.Resource.SumMerge

/-!
# Region summaries

A summary is the summed picture of one region over one window. The report of a node becomes a
summary of its region by replacing every node in it by the node's region, and summaries of the same
region and window are summed. Mean processing times are kept as a sum and a count of reports, so
the mean over a region does not depend on the order in which summaries are merged.
-/

namespace RegionGossip

/-- Quantities by service and client region. -/
abbrev RegionLoad (ν : Type) := SortedMap ServiceId (SortedMap RegionId (NodeAttributes ν))

/-- Quantities by neighbour region. -/
abbrev RegionLinks (ν : Type) := SortedMap RegionId (LinkAttributes ν)

/-- The summed picture of one region over one window. Times are missing as long as no report has
gone into it. -/
structure Summary (ν : Type) where
  region : RegionId
  window : Window
  minTimestamp : Option Timestamp
  maxTimestamp : Option Timestamp
  serverCapacity : NodeAttributes ν
  serverLoad : RegionLoad ν
  serverDemand : RegionLoad ν
  networkCapacity : RegionLinks ν
  networkLoad : RegionLinks ν
  networkDemand : RegionLinks ν
  /-- The sum of the nodes' mean processing times of each service. -/
  processingNumerator : SortedMap ServiceId ν
  /-- The number of reports that mention each service. -/
  processingDenominator : SortedMap ServiceId ν

/-- Why summaries cannot be built or merged. -/
inductive SummaryError
  | differentRegions (one two : RegionId)
  | differentWindows (one two : Window)
  | unknownRegion (node : NodeId)
  deriving Repr

/-- The wording of an error about summaries. -/
def SummaryError.message : SummaryError → String
  | .differentRegions one two =>
    "contract violation: cannot merge summaries of regions " ++ one.name ++ " and " ++ two.name
  | .differentWindows one two =>
    "contract violation: cannot merge summaries of windows " ++ one.name ++ " and " ++ two.name
  | .unknownRegion node => "no region known for node " ++ node.name

/-- The region of each node that has one. -/
abbrev RegionOf := NodeId → Option RegionId

/-- Quantities by node become quantities by region; those of one region are summed in the order of
the nodes, and those of a node without a region are dropped. -/
def byRegion {α : Type} [SumMerge α] (regionOf : RegionOf) (byNode : SortedMap NodeId α)
    (empty : α) : SortedMap RegionId α :=
  byNode.entries.foldl (fun sums entry =>
    match regionOf entry.1 with
    | some region => sums.upsert region (fun held => sumMerge (held.getD empty) entry.2)
    | none => sums) SortedMap.empty

namespace Summary

variable {ν : Type}

/-- The summary that no report has gone into. -/
def null (region : RegionId) (window : Window) : Summary ν :=
  { region, window
    minTimestamp := none
    maxTimestamp := none
    serverCapacity := ∅
    serverLoad := ∅
    serverDemand := ∅
    networkCapacity := ∅
    networkLoad := ∅
    networkDemand := ∅
    processingNumerator := ∅
    processingDenominator := ∅ }

/-- Whether no report has gone into a summary. -/
def isNull (summary : Summary ν) : Bool :=
  summary.minTimestamp.isNone && summary.maxTimestamp.isNone

/-- The mean processing time of a service; there is none where the count is zero or missing. -/
def averageProcessingTime [Div ν] [Zero ν] [BEq ν] (summary : Summary ν) (service : ServiceId) :
    Option ν := do
  let numerator ← summary.processingNumerator.get? service
  let denominator ← summary.processingDenominator.get? service
  if denominator == 0 then none else some (numerator / denominator)

/-- The mean processing times of all services that have one. -/
def averageProcessingTimes [Div ν] [Zero ν] [BEq ν] (summary : Summary ν) :
    SortedMap ServiceId ν :=
  summary.processingNumerator.filterMap fun service _ => summary.averageProcessingTime service

/-- Quantities by service and client node become quantities by service and region. -/
def byClientRegion [Add ν] (regionOf : RegionOf) (byService : ClientLoad ν) : RegionLoad ν :=
  byService.mapValues fun _ byNode => byRegion regionOf byNode ∅

/-- The summary of one report. -/
def ofReport [Add ν] [One ν] (regionOf : RegionOf) (report : Report ν) :
    Except SummaryError (Summary ν) :=
  match regionOf report.node with
  | none => .error (.unknownRegion report.node)
  | some region =>
    .ok
      { region
        window := report.window
        minTimestamp := some report.timestamp
        maxTimestamp := some report.timestamp
        serverCapacity := report.computeCapacity
        serverLoad := byClientRegion regionOf report.computeLoad
        serverDemand := byClientRegion regionOf report.computeDemand
        networkCapacity := byRegion regionOf report.networkCapacity ∅
        networkLoad := byRegion regionOf report.networkLoad ∅
        networkDemand := byRegion regionOf report.networkDemand ∅
        processingNumerator := report.averageProcessingTime
        processingDenominator := report.averageProcessingTime.mapValues fun _ _ => 1 }

/-- The sum of two summaries of the same region and window. The first one gives the spelling of the
region. -/
def merge [Add ν] (one two : Summary ν) : Except SummaryError (Summary ν) :=
  if one.region != two.region then .error (.differentRegions one.region two.region)
  else if one.window ≠ two.window then .error (.differentWindows one.window two.window)
  else
    .ok
      { region := one.region
        window := one.window
        minTimestamp := Timestamp.earliest one.minTimestamp two.minTimestamp
        maxTimestamp := Timestamp.latest one.maxTimestamp two.maxTimestamp
        serverCapacity := sumMerge one.serverCapacity two.serverCapacity
        serverLoad := sumMerge one.serverLoad two.serverLoad
        serverDemand := sumMerge one.serverDemand two.serverDemand
        networkCapacity := sumMerge one.networkCapacity two.networkCapacity
        networkLoad := sumMerge one.networkLoad two.networkLoad
        networkDemand := sumMerge one.networkDemand two.networkDemand
        processingNumerator := sumMerge one.processingNumerator two.processingNumerator
        processingDenominator := sumMerge one.processingDenominator two.processingDenominator }

/-- The sum of any number of summaries of one region and window, starting from the null summary. -/
def mergeAll [Add ν] (region : RegionId) (window : Window) (summaries : List (Summary ν)) :
    Except SummaryError (Summary ν) :=
  summaries.foldlM merge (null region window)

/-- Equality of summaries, without regard to the spelling of identifiers. -/
def same [BEq ν] (one two : Summary ν) : Bool :=
  one.region == two.region && one.window == two.window &&
    one.minTimestamp == two.minTimestamp && one.maxTimestamp == two.maxTimestamp &&
    one.serverCapacity == two.serverCapacity && one.serverLoad == two.serverLoad &&
    one.serverDemand == two.serverDemand && one.networkCapacity == two.networkCapacity &&
    one.networkLoad == two.networkLoad && one.networkDemand == two.networkDemand &&
    one.processingNumerator == two.processingNumerator &&
    one.processingDenominator == two.processingDenominator

instance [BEq ν] : BEq (Summary ν) := ⟨same⟩

end Summary

end RegionGossip
