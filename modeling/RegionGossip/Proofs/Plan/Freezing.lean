import RegionGossip.Proofs.Plan.Consistency

/-!
# Seeded builders can always be frozen

A seeded builder fits the state it was made from: it lists the active containers with the services
they run. What the checks before freezing look at can be read off the assignments of a builder, and
as calls do not change assignments it fits after any sequence of calls. No builder ever lists a
container twice on one node, so the check for that never fails.
-/

namespace RegionGossip.PlanBuilder

open Std

variable {builder : PlanBuilder} {live : LiveState}

/-- The check for repeated containers passes when no node has one assigned twice. -/
theorem repeated?_eq_none (hassigned : ∀ node, Unrepeated (builder.assigned node)) :
    builder.repeated? = none := by
  refine repeated?_eq_none_iff.2 fun node => ?_
  rw [filterMap_container, List.pairwise_map]
  exact hassigned node

/-- Repeated containers are reported by the check for them alone. -/
theorem fault?_ne_repeated (hnone : builder.repeated? = none) (container : ContainerId)
    (node : NodeId) : builder.fault? live ≠ some (.repeated container node) := fun hfault =>
  not_appliesTo_repeated (repeated?_eq_none_iff.1 hnone node) (appliesTo_of_fault? hfault)

/-- A builder without faults is frozen as it is. -/
theorem freeze_eq_ok {overflow : OverflowPlan} {timestamp : Timestamp}
    (hnone : builder.fault? live = none) :
    builder.freeze live overflow timestamp =
      .ok ⟨builder.region, timestamp, builder.services, overflow⟩ := by
  rw [freeze, hnone]

/-- Calls do not make a builder assign a container twice to one node. -/
theorem unrepeated_drive (origin : Origin) (calls : List Call) (node : NodeId) :
    Unrepeated ((origin.builder.drive calls).assigned node) := by
  rw [(origin.builder.assigned_drive calls).2]
  exact unrepeated_origin origin node

/-- After any calls a seeded builder fits the state it was made from. -/
theorem consistent_drive_ofPlan (previous : Plan) (live : LiveState) (calls : List Call) :
    ((ofPlan previous live).drive calls).Consistent live := by
  obtain ⟨hregion, hassigned⟩ := (ofPlan previous live).assigned_drive calls
  constructor
  case sameRegion =>
    rw [hregion, region_ofPlan]
    exact BEq.rfl
  case unrepeated =>
    exact repeated?_eq_none_iff.1
      (repeated?_eq_none (unrepeated_drive (.seeded previous live) calls))
  case listed =>
    intro node container hactive
    obtain ⟨placement, -, -, hseeded⟩ := exists_entryFor?_ofPlan previous hactive
    have hentry : ((ofPlan previous live).drive calls).entryFor? node container = _ :=
      entryFor?_drive calls (ofPlan previous live)
    rw [hseeded, Option.map_some] at hentry
    exact ⟨_, List.mem_of_find?_eq_some hentry, by simpa using List.find?_some hentry⟩
  case assigned =>
    intro node entry hentry container hcontainer state hstate
    have hpair : (container, entry.service) ∈ (ofPlan previous live).assigned node := by
      rw [← hassigned]
      exact List.mem_filterMap.2 ⟨entry, hentry, by rw [assignment, hcontainer]; rfl⟩
    obtain ⟨placement, hplacement, hnode, hsame⟩ := mem_assigned_ofPlan.1 hpair
    obtain ⟨rfl, hservice⟩ := Prod.mk.inj hsame
    have hplaced := LiveState.container?_of_mem_placements (List.mem_filter.1 hplacement).1
    rw [LiveState.container?, ← live.nodes.get?_congr hnode] at hplaced
    obtain rfl : state = placement.state := Option.some.inj (hstate.symm.trans hplaced)
    rw [hservice]
    exact BEq.rfl

/-- After any calls a seeded builder has no fault with regard to the state it was made from. -/
theorem fault?_drive_ofPlan (previous : Plan) (live : LiveState) (calls : List Call) :
    ((ofPlan previous live).drive calls).fault? live = none :=
  fault?_eq_none_iff.2 (consistent_drive_ofPlan previous live calls)

/-- A builder that was seeded from a region's state can be frozen against that state, whatever the
last plan was and whatever was called in between, refused calls included. No builder that calls lead
to lists a container twice on one node, so that is never the reason for which freezing fails,
against whatever state. -/
theorem seeded_always_freezes (calls : List Call) :
    (∀ (previous : Plan) (live : LiveState) (overflow : OverflowPlan) (timestamp : Timestamp),
      ((ofPlan previous live).drive calls).freeze live overflow timestamp =
        .ok ⟨live.region, timestamp, ((ofPlan previous live).drive calls).services, overflow⟩) ∧
    ∀ origin : Origin,
      (∀ node, (((origin.builder.drive calls).containers node).filterMap
        PlanEntry.container).Pairwise fun one two => (one == two) = false) ∧
      ∀ (live : LiveState) (overflow : OverflowPlan) (timestamp : Timestamp)
        (container : ContainerId) (node : NodeId),
        (origin.builder.drive calls).freeze live overflow timestamp ≠
          .error (.invalid (.repeated container node)) := by
  constructor
  · intro previous live overflow timestamp
    have hregion : ((ofPlan previous live).drive calls).region = live.region :=
      ((ofPlan previous live).assigned_drive calls).1.trans (region_ofPlan previous live)
    rw [freeze_eq_ok (fault?_drive_ofPlan previous live calls), hregion]
  · intro origin
    have hunrepeated := unrepeated_drive origin calls
    constructor
    · intro node
      rw [filterMap_container, List.pairwise_map]
      exact hunrepeated node
    · intro live overflow timestamp container node hfreeze
      rw [freeze] at hfreeze
      split at hfreeze
      · rename_i fault hfault
        obtain rfl := PlanError.invalid.inj (Except.error.inj hfreeze)
        exact fault?_ne_repeated (repeated?_eq_none hunrepeated) container node hfault
      · contradiction

end RegionGossip.PlanBuilder
