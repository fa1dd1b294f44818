import Mathlib.Algebra.BigOperators.Group.List.Basic
import Mathlib.Algebra.Ring.Int.Defs
import RegionGossip.Proofs.Resource.SumMerge
import RegionGossip.Resource.Summary

/-!
# From nodes to regions

The summary of a report holds for a region what the report holds for the nodes of the region. Nodes
may be in one region under several spellings of it, and a node without a region is dropped. At each
region the values of the nodes are added one by one in the order of the nodes, starting from the
first value itself, so what one node alone gives is kept as it is.

Doubles are summed in just this order. Where addition is exact nothing is lost on the way: the total
over the regions is the total over the nodes that have one.
-/

namespace RegionGossip

variable {κ α ν : Type} {regionOf : RegionOf}

/-- Whether a node is in a region, in whatever spelling. -/
def RegionOf.places (regionOf : RegionOf) (region : RegionId) (node : NodeId) : Bool :=
  (regionOf node).any (region == ·)

/-- What is held for the nodes of a region, in the order of the nodes. -/
def rowsIn (regionOf : RegionOf) (byNode : SortedMap NodeId α) (region : RegionId) : List α :=
  (byNode.filter fun node _ => regionOf.places region node).values

/-- What is held for the nodes that have a region. -/
def rowsPlaced (regionOf : RegionOf) (byNode : SortedMap NodeId α) : List α :=
  (byNode.filter fun node _ => (regionOf node).isSome).values

/-- The sum of some numbers from left to right, starting from the first one; nothing has no sum. -/
def runningSum [Add ν] : List ν → Option ν
  | [] => none
  | first :: later => some (later.foldl (· + ·) first)

/-! ## What is held for a region -/

section ByRegion

variable [SumMerge α]

/-- What is held for a node goes to the region of the node, if there is one. -/
def regroup (regionOf : RegionOf) (empty : α) (sums : SortedMap RegionId α) (entry : NodeId × α) :
    SortedMap RegionId α :=
  match regionOf entry.1 with
  | some region => sums.upsert region fun held => sumMerge (held.getD empty) entry.2
  | none => sums

/-- The nodes are regrouped one by one. -/
theorem byRegion_eq_foldl (byNode : SortedMap NodeId α) (empty : α) :
    byRegion regionOf byNode empty = byNode.entries.foldl (regroup regionOf empty) ∅ := rfl

/-- A node that is regrouped changes what is held for its own region. -/
theorem get?_regroup (empty : α) (sums : SortedMap RegionId α) (entry : NodeId × α)
    (region : RegionId) :
    (regroup regionOf empty sums entry).get? region =
      if regionOf.places region entry.1 then
        some (sumMerge ((sums.get? region).getD empty) entry.2)
      else sums.get? region := by
  rw [regroup, RegionOf.places]
  cases regionOf entry.1 with
  | none => rfl
  | some own =>
    show (sums.upsert own _).get? region = if (region == own) = true then _ else _
    rw [SortedMap.get?_upsert]
    by_cases hown : compare region own = .eq
    · rw [if_pos hown, if_pos (Ident.compare_eq_iff_beq.1 hown), sums.get?_congr hown]
    · rw [if_neg hown, if_neg (mt Ident.compare_eq_iff_beq.2 hown)]

/-- Nodes that are regrouped add, for each region, what is held for the nodes of the region. -/
theorem get?_foldl_regroup (empty : α) (entries : List (NodeId × α)) (sums : SortedMap RegionId α)
    (region : RegionId) :
    (entries.foldl (regroup regionOf empty) sums).get? region =
      (entries.filter fun entry => regionOf.places region entry.1).foldl
        (fun held entry => some (sumMerge (held.getD empty) entry.2)) (sums.get? region) := by
  induction entries generalizing sums with
  | nil => rfl
  | cons entry rest ih =>
    rw [List.foldl_cons, ih, get?_regroup]
    by_cases hplaces : regionOf.places region entry.1 = true
    · rw [if_pos hplaces, List.filter_cons_of_pos (by exact hplaces), List.foldl_cons]
    · rw [if_neg hplaces, List.filter_cons_of_neg (by exact hplaces)]

/-- A region is summed up over what is held for its nodes. -/
theorem get?_byRegion (byNode : SortedMap NodeId α) (empty : α) (region : RegionId) :
    (byRegion regionOf byNode empty).get? region =
      (rowsIn regionOf byNode region).foldl
        (fun held row => some (sumMerge (held.getD empty) row)) none := by
  rw [byRegion_eq_foldl, get?_foldl_regroup, rowsIn, SortedMap.values, List.foldl_map]
  rfl

/-- Something is held for a region when it is held for a node of the region. -/
theorem contains_byRegion (byNode : SortedMap NodeId α) (empty : α) (region : RegionId) :
    (byRegion regionOf byNode empty).contains region = true ↔
      ∃ node ∈ byNode.keys, regionOf.places region node = true := by
  rw [SortedMap.contains_eq_isSome, byRegion_eq_foldl, get?_foldl_regroup]
  have hsome (entries : List (NodeId × α)) (held : Option α) :
      (entries.foldl (fun held entry => some (sumMerge (held.getD empty) entry.2)) held).isSome =
        (held.isSome || !entries.isEmpty) := by
    induction entries generalizing held with
    | nil => exact (Bool.or_false _).symm
    | cons entry rest ih => rw [List.foldl_cons, ih]; exact (Bool.or_true _).symm
  rw [hsome, SortedMap.keys]
  simp [List.filter_eq_nil_iff]

end ByRegion

/-! ## Attributes -/

section Attributes

variable [Ord κ] [Std.TransOrd κ] [Add ν]

/-- Rows that are summed one after the other hold the sum of what they hold. -/
theorem bind_get?_foldl (rows : List (SortedMap κ ν)) (held : Option (SortedMap κ ν))
    (measured : κ) :
    (rows.foldl (fun held row => some (sumMerge (held.getD ∅) row)) held).bind (·.get? measured) =
      runningSum ((held.bind (·.get? measured)).toList ++ rows.filterMap (·.get? measured)) := by
  induction rows generalizing held with
  | nil => cases hheld : held.bind (·.get? measured) <;> simp [hheld, runningSum]
  | cons row rest ih =>
    have hsum : (sumMerge (held.getD ∅) row).get? measured =
        (held.bind (·.get? measured)).merge (· + ·) (row.get? measured) := by
      rw [SortedMap.get?_sumMerge]
      cases held <;> rfl
    rw [List.foldl_cons, ih, Option.bind_some, hsum, List.filterMap_cons]
    cases held.bind (·.get? measured) <;> cases row.get? measured <;> rfl

/-- The value of an attribute at a region is the running sum of the values at its nodes. -/
theorem bind_get?_byRegion (byNode : SortedMap NodeId (SortedMap κ ν)) (region : RegionId)
    (measured : κ) :
    ((byRegion regionOf byNode ∅).get? region).bind (·.get? measured) =
      runningSum ((rowsIn regionOf byNode region).filterMap (·.get? measured)) := by
  rw [get?_byRegion, bind_get?_foldl]
  rfl

/-- There is a sum as soon as there is something to add. -/
theorem isSome_runningSum (values : List ν) : (runningSum values).isSome = true ↔ values ≠ [] := by
  cases values <;> simp [runningSum]

/-- An attribute is held at a region when it is held at a node of the region. -/
theorem contains_attribute_byRegion (byNode : SortedMap NodeId (SortedMap κ ν)) (region : RegionId)
    (measured : κ) :
    (∃ row, (byRegion regionOf byNode ∅).get? region = some row ∧
        row.contains measured = true) ↔
      ∃ entry ∈ byNode.entries, regionOf.places region entry.1 = true ∧
        entry.2.contains measured = true := by
  have hheld : (∃ row, (byRegion regionOf byNode ∅).get? region = some row ∧
      row.contains measured = true) ↔
      (((byRegion regionOf byNode ∅).get? region).bind (·.get? measured)).isSome = true := by
    simp only [SortedMap.contains_eq_isSome, Option.isSome_bind, Option.any_eq_true]
  rw [hheld, bind_get?_byRegion, isSome_runningSum, ne_eq, List.filterMap_eq_nil_iff]
  push Not
  constructor
  · rintro ⟨row, hrow, hmeasured⟩
    obtain ⟨entry, hentry, rfl⟩ := List.mem_map.1 hrow
    obtain ⟨hentry, hplaces⟩ := List.mem_filter.1 hentry
    exact ⟨entry, hentry, hplaces, by
      rwa [SortedMap.contains_eq_isSome, Option.isSome_iff_ne_none]⟩
  · rintro ⟨entry, hentry, hplaces, hmeasured⟩
    refine ⟨entry.2, List.mem_map_of_mem (List.mem_filter.2 ⟨hentry, hplaces⟩), ?_⟩
    rwa [SortedMap.contains_eq_isSome, Option.isSome_iff_ne_none] at hmeasured

end Attributes

/-! ## Totals -/

section Totals

variable [Ord κ] {M : Type} [AddCommMonoid M]

/-- What a row adds to the total of an attribute, for some reading of the numbers. -/
def share (reading : ν → M) (measured : κ) (row : SortedMap κ ν) : M :=
  ((row.get? measured).map reading).getD 0

/-- The total of an attribute over some rows, for some reading of the numbers. -/
def total (reading : ν → M) (measured : κ) (rows : List (SortedMap κ ν)) : M :=
  (rows.map (share reading measured)).sum

/-- A value that is updated by an amount raises a sum over the values by this amount. -/
theorem sum_upsertEntry {ρ : Type} [Ord ρ] {amount : α → M} {more : M} {change : Option α → α}
    (hchange : ∀ held, amount (change held) = (held.map amount).getD 0 + more) (key : ρ)
    (entries : List (ρ × α)) :
    ((SortedMap.upsertEntry key change entries).map fun entry => amount entry.2).sum =
      (entries.map fun entry => amount entry.2).sum + more := by
  induction entries with
  | nil =>
    rw [SortedMap.upsertEntry, List.map_singleton, List.sum_singleton, hchange]
    rfl
  | cons head rest ih =>
    obtain ⟨other, held⟩ := head
    rw [SortedMap.upsertEntry]
    split
    · rw [List.map_cons, List.sum_cons, hchange, Option.map_none, Option.getD_none, zero_add,
        add_comm]
    · rw [List.map_cons, List.sum_cons, hchange, Option.map_some, Option.getD_some, add_right_comm,
        List.map_cons, List.sum_cons]
    · rw [List.map_cons, List.sum_cons, ih, List.map_cons, List.sum_cons, add_assoc]

variable [Std.TransOrd κ] [Add ν] {reading : ν → M}
  (hreading : ∀ one two, reading (one + two) = reading one + reading two)
include hreading

/-- The shares of two rows add up to the share of their sum. -/
theorem share_sumMerge (measured : κ) (one two : SortedMap κ ν) :
    share reading measured (sumMerge one two) =
      share reading measured one + share reading measured two := by
  rw [share, share, share, SortedMap.get?_sumMerge]
  cases one.get? measured with
  | none => cases two.get? measured <;> simp [Option.merge]
  | some left =>
    cases two.get? measured with
    | none => simp [Option.merge]
    | some right => exact hreading left right

/-- Regrouping a node that has a region raises the total by the share of the node. -/
theorem total_regroup (measured : κ) (sums : SortedMap RegionId (SortedMap κ ν))
    (entry : NodeId × SortedMap κ ν) :
    total reading measured (regroup regionOf ∅ sums entry).values =
      total reading measured sums.values +
        if (regionOf entry.1).isSome then share reading measured entry.2 else 0 := by
  rw [regroup]
  cases regionOf entry.1 with
  | none => exact (add_zero _).symm
  | some region =>
    rw [total, total, SortedMap.values, List.map_map, SortedMap.values, List.map_map]
    apply sum_upsertEntry
    intro held
    rw [share_sumMerge hreading]
    cases held <;> rfl

/-- Regrouping some nodes raises the total by the total over those that have a region. -/
theorem total_foldl_regroup (measured : κ) (entries : List (NodeId × SortedMap κ ν))
    (sums : SortedMap RegionId (SortedMap κ ν)) :
    total reading measured (entries.foldl (regroup regionOf ∅) sums).values =
      total reading measured sums.values + total reading measured
        ((entries.filter fun entry => (regionOf entry.1).isSome).map Prod.snd) := by
  induction entries generalizing sums with
  | nil => exact (add_zero _).symm
  | cons entry rest ih =>
    rw [List.foldl_cons, ih, total_regroup hreading, add_assoc]
    congr 1
    by_cases hplaced : (regionOf entry.1).isSome = true
    · rw [if_pos hplaced, List.filter_cons_of_pos (by exact hplaced)]
      exact List.sum_cons.symm
    · rw [if_neg hplaced, List.filter_cons_of_neg (by exact hplaced), zero_add]

/-- The total over the regions is the total over the nodes that have a region. -/
theorem total_byRegion (measured : κ) (byNode : SortedMap NodeId (SortedMap κ ν)) :
    total reading measured (byRegion regionOf byNode ∅).values =
      total reading measured (rowsPlaced regionOf byNode) := by
  rw [byRegion_eq_foldl, total_foldl_regroup hreading]
  exact zero_add _

end Totals

/-! ## Summaries of reports -/

/-- A map by region holds what a map by node holds for the nodes of each region. -/
structure Regrouped [Ord κ] [Add ν] (regionOf : RegionOf)
    (byNode : SortedMap NodeId (SortedMap κ ν)) (grouped : SortedMap RegionId (SortedMap κ ν)) :
    Prop where
  region : ∀ region, grouped.contains region = true ↔
    ∃ node ∈ byNode.keys, regionOf.places region node = true
  measured : ∀ region measured,
    (∃ row, grouped.get? region = some row ∧ row.contains measured = true) ↔
      ∃ entry ∈ byNode.entries, regionOf.places region entry.1 = true ∧
        entry.2.contains measured = true
  value : ∀ region measured, (grouped.get? region).bind (·.get? measured) =
    runningSum ((rowsIn regionOf byNode region).filterMap (·.get? measured))
  /-- The numbers are read in a monoid where addition is exact; exact numbers are read as they
  are. -/
  total : ∀ (M : Type) [AddCommMonoid M] (reading : ν → M),
    (∀ one two, reading (one + two) = reading one + reading two) → ∀ measured,
      total reading measured grouped.values =
        total reading measured (rowsPlaced regionOf byNode)

/-- Summing up by region regroups. -/
theorem regrouped_byRegion [Ord κ] [Std.TransOrd κ] [Add ν]
    (byNode : SortedMap NodeId (SortedMap κ ν)) :
    Regrouped regionOf byNode (byRegion regionOf byNode ∅) where
  region := contains_byRegion byNode ∅
  measured := contains_attribute_byRegion byNode
  value := bind_get?_byRegion byNode
  total _ _ _ hreading measured := total_byRegion hreading measured byNode

/-- A map by service and region holds every service of a map by service and node, and the nodes of
each service are regrouped. -/
structure RegroupedByService [Add ν] (regionOf : RegionOf) (byService : ClientLoad ν)
    (grouped : RegionLoad ν) : Prop where
  services : grouped.keys = byService.keys
  service : ∀ service byNode, byService.get? service = some byNode →
    ∃ byRegion, grouped.get? service = some byRegion ∧ Regrouped regionOf byNode byRegion

namespace Summary

/-- Summing up the clients by region keeps the services and regroups the nodes of each of them. -/
theorem regroupedByService_byClientRegion [Add ν] (byService : ClientLoad ν) :
    RegroupedByService regionOf byService (byClientRegion regionOf byService) where
  services := by
    rw [SortedMap.keys, byClientRegion, SortedMap.mapValues, List.map_map]
    rfl
  service service byNode hservice := by
    refine ⟨byRegion regionOf byNode ∅, ?_, regrouped_byRegion byNode⟩
    rw [byClientRegion, SortedMap.get?_mapValues, hservice, Option.map_some]

/-- A summary says about the regions what a report says about their nodes. -/
structure Regroups [Add ν] [One ν] (regionOf : RegionOf) (report : Report ν)
    (summary : Summary ν) : Prop where
  window : summary.window = report.window
  minTimestamp : summary.minTimestamp = some report.timestamp
  maxTimestamp : summary.maxTimestamp = some report.timestamp
  serverCapacity : summary.serverCapacity = report.computeCapacity
  serverLoad : RegroupedByService regionOf report.computeLoad summary.serverLoad
  serverDemand : RegroupedByService regionOf report.computeDemand summary.serverDemand
  networkCapacity : Regrouped regionOf report.networkCapacity summary.networkCapacity
  networkLoad : Regrouped regionOf report.networkLoad summary.networkLoad
  networkDemand : Regrouped regionOf report.networkDemand summary.networkDemand
  processingNumerator : summary.processingNumerator = report.averageProcessingTime
  processingServices : summary.processingDenominator.keys = report.averageProcessingTime.keys
  processingDenominator : ∀ count ∈ summary.processingDenominator.values, count = 1

/-- A report is refused exactly when the node that made it has no region. -/
theorem ofReport_eq_error_iff [Add ν] [One ν] {report : Report ν} {error : SummaryError} :
    ofReport regionOf report = .error error ↔
      regionOf report.node = none ∧ error = .unknownRegion report.node := by
  rw [ofReport]
  cases regionOf report.node with
  | none => simp [eq_comm]
  | some region => simp

/-- The summary of a report regroups it. -/
theorem regroups_of_ofReport [Add ν] [One ν] {report : Report ν} {summary : Summary ν}
    (hsummary : ofReport regionOf report = .ok summary) : Regroups regionOf report summary := by
  rw [ofReport] at hsummary
  split at hsummary
  · contradiction
  · obtain rfl := Except.ok.inj hsummary
    exact
      { window := rfl
        minTimestamp := rfl
        maxTimestamp := rfl
        serverCapacity := rfl
        serverLoad := regroupedByService_byClientRegion _
        serverDemand := regroupedByService_byClientRegion _
        networkCapacity := regrouped_byRegion _
        networkLoad := regrouped_byRegion _
        networkDemand := regrouped_byRegion _
        processingNumerator := rfl
        processingServices := by
          rw [SortedMap.keys, SortedMap.mapValues, List.map_map]
          rfl
        processingDenominator := by
          intro count hcount
          rw [SortedMap.values, SortedMap.mapValues, List.map_map, List.mem_map] at hcount
          obtain ⟨_, -, rfl⟩ := hcount
          rfl }

/-- A report becomes a summary exactly when the node that made it has a region. The summary is for
this region and regroups the report. -/
theorem regroups_by_region [Add ν] [One ν] (regionOf : RegionOf) (report : Report ν) :
    (∀ error, ofReport regionOf report = .error error ↔
      regionOf report.node = none ∧ error = .unknownRegion report.node) ∧
    ∀ region, regionOf report.node = some region →
      ∃ summary, ofReport regionOf report = .ok summary ∧ summary.region = region ∧
        Regroups regionOf report summary := by
  refine ⟨fun error => ofReport_eq_error_iff, fun region hregion => ?_⟩
  obtain ⟨summary, hsummary, hown⟩ : ∃ summary, ofReport regionOf report = .ok summary ∧
      summary.region = region := by
    rw [ofReport, hregion]
    exact ⟨_, rfl, rfl⟩
  exact ⟨summary, hsummary, hown, regroups_of_ofReport hsummary⟩

/-- Two nodes are in one region under two spellings, a third one is in another region, and every
other node has none. -/
def spread : RegionOf := fun node =>
  if node == ⟨"n1"⟩ then some ⟨"east"⟩
  else if node == ⟨"n2"⟩ then some ⟨"EAST"⟩
  else if node == ⟨"n3"⟩ then some ⟨"west"⟩
  else none

/-- A report on two services, one of which is used only by a node without a region. -/
def clientReport : Report Int where
  node := ⟨"n1"⟩
  timestamp := ⟨12, 0⟩
  window := .long
  computeCapacity := ∅
  computeLoad := .ofList [
    (⟨"video"⟩, .ofList [
      (⟨"n1"⟩, .ofList [(.cpu, 1)]),
      (⟨"n2"⟩, .ofList [(.cpu, 2), (.memory, 4)]),
      (⟨"n3"⟩, .ofList [(.cpu, 5)]),
      (⟨"ghost"⟩, .ofList [(.cpu, 100)])]),
    (⟨"audio"⟩, .ofList [(⟨"ghost"⟩, .ofList [(.cpu, 7)])])]
  computeDemand := ∅
  networkCapacity := ∅
  networkLoad := ∅
  networkDemand := ∅
  averageProcessingTime := ∅

/-- The load of the first two nodes is summed, and that of the node without a region is dropped. Its
service stays. -/
theorem clientReport_regroups : ∃ summary byRegion,
    ofReport spread clientReport = .ok summary ∧
    summary.region = ⟨"east"⟩ ∧
    summary.serverLoad.keys = [⟨"audio"⟩, ⟨"video"⟩] ∧
    summary.serverLoad.get? ⟨"VIDEO"⟩ = some byRegion ∧
    byRegion.contains ⟨"East"⟩ = true ∧
    (byRegion.get? ⟨"East"⟩).bind (·.get? .cpu) = some 3 ∧
    (byRegion.get? ⟨"East"⟩).bind (·.get? .memory) = some 4 ∧
    total id .cpu byRegion.values = 8 := by
  obtain ⟨summary, hsummary, hregion, hregroups⟩ :=
    (regroups_by_region spread clientReport).2 ⟨"east"⟩ rfl
  obtain ⟨byRegion, hbyRegion, hregrouped⟩ :=
    hregroups.serverLoad.service ⟨"VIDEO"⟩ _ rfl
  exact ⟨summary, byRegion, hsummary, hregion, hregroups.serverLoad.services, hbyRegion,
    (hregrouped.region _).2 ⟨⟨"n1"⟩, .tail _ (.head _), rfl⟩, hregrouped.value _ _, hregrouped.value _ _,
    hregrouped.total Int id (fun _ _ => rfl) .cpu⟩

end Summary

end RegionGossip
