import RegionGossip.Proofs.Plan.Assignment

/-!
# What a seeded builder assigns

Every container of a region has one place in its live state. A builder that is made from the live
state assigns to each node the active containers there, once each and with the services they run,
whatever the last plan says.
-/

namespace RegionGossip

open Std

namespace LiveState

variable {live : LiveState}

/-- A placement is what is known of its container on its node. -/
theorem container?_of_mem_placements {placement : Placement}
    (hplacement : placement ∈ live.placements) :
    live.container? placement.node placement.container = some placement.state := by
  obtain ⟨⟨node, containers⟩, hnode, hcontainers⟩ := List.mem_flatMap.1 hplacement
  obtain ⟨⟨container, state⟩, hcontainer, rfl⟩ := List.mem_map.1 hcontainers
  rw [container?, live.nodes.get?_of_mem hnode]
  exact containers.get?_of_mem hcontainer

/-- Two places on one node have different containers. -/
theorem pairwise_placements (live : LiveState) :
    live.placements.Pairwise fun one two =>
      compare one.node two.node = .eq → (one.container == two.container) = false := by
  have hdiffer {kind : IdentKind} {one two : Ident kind} (hless : compare one two = .lt) :
      (one == two) = false := by
    rw [Bool.eq_false_iff, ne_eq, ← Ident.compare_eq_iff_beq, hless]
    decide
  rw [placements, List.pairwise_flatMap]
  constructor
  · rintro ⟨node, containers⟩ -
    rw [List.pairwise_map]
    apply containers.increasing.imp
    intro first second hless _
    exact hdiffer hless
  · apply live.nodes.increasing.imp
    intro first second hless one hone two htwo hsame
    obtain ⟨_, -, rfl⟩ := List.mem_map.1 hone
    obtain ⟨_, -, rfl⟩ := List.mem_map.1 htwo
    -- the nodes differ, so there is nothing to show about the containers
    rw [hsame] at hless
    contradiction

end LiveState

namespace PlanBuilder

/-- The container of a placement with the service that it runs. -/
def running (placement : Placement) : ContainerId × ServiceId :=
  (placement.container, placement.state.service)

/-- Whatever the last plan says, the entry of a running container is for it and its service. -/
theorem assignment_carryOver (previous : Plan) (placement : Placement) :
    assignment (carryOver previous placement) = some (running placement) := by
  rw [carryOver]
  split <;> rfl

/-- Adding the entries of placements assigns to a node those that are on it. -/
theorem assigned_foldl_push (previous : Plan) (placements : List Placement) (builder : PlanBuilder)
    (node : NodeId) :
    (placements.foldl (fun builder placement =>
        builder.push placement.node (carryOver previous placement)) builder).assigned node =
      builder.assigned node ++
        (placements.filter fun placement => compare node placement.node == .eq).map running := by
  induction placements generalizing builder with
  | nil => exact (List.append_nil _).symm
  | cons placement rest ih =>
    rw [List.foldl_cons, ih, assigned_push, assignment_carryOver]
    by_cases hnode : compare node placement.node = .eq
    · rw [if_pos hnode, List.filter_cons_of_pos (by simpa using hnode)]
      simp
    · rw [if_neg hnode, List.filter_cons_of_neg (by simpa using hnode)]

/-- Adding entries keeps the region. -/
theorem region_foldl_push (previous : Plan) (placements : List Placement) (builder : PlanBuilder) :
    (placements.foldl (fun builder placement =>
        builder.push placement.node (carryOver previous placement)) builder).region =
      builder.region := by
  induction placements generalizing builder with
  | nil => rfl
  | cons placement rest ih => exact ih _

variable {previous : Plan} {live : LiveState} {node : NodeId}

/-- A seeded builder is for the region it was made from. -/
theorem region_ofPlan (previous : Plan) (live : LiveState) :
    (ofPlan previous live).region = live.region := region_foldl_push ..

/-- A seeded builder assigns to each node what is active there. -/
theorem assigned_ofPlan (previous : Plan) (live : LiveState) (node : NodeId) :
    (ofPlan previous live).assigned node =
      (live.active.filter fun placement => compare node placement.node == .eq).map running :=
  assigned_foldl_push ..

/-- What a seeded builder assigns is active on that node. -/
theorem mem_assigned_ofPlan {pair : ContainerId × ServiceId} :
    pair ∈ (ofPlan previous live).assigned node ↔
      ∃ placement ∈ live.active, compare node placement.node = .eq ∧ running placement = pair := by
  simp only [assigned_ofPlan, List.mem_map, List.mem_filter, beq_iff_eq, and_assoc]

/-- Assignments whose containers are all different. -/
def Unrepeated (pairs : List (ContainerId × ServiceId)) : Prop :=
  pairs.Pairwise fun one two => (one.1 == two.1) = false

/-- A builder that was just made assigns no container twice to one node. -/
theorem unrepeated_origin (origin : Origin) (node : NodeId) :
    Unrepeated (origin.builder.assigned node) := by
  cases origin with
  | fresh region => exact List.Pairwise.nil
  | seeded previous live =>
    rw [Origin.builder, assigned_ofPlan, Unrepeated, List.pairwise_map]
    have hplaces : live.active.Pairwise fun one two =>
        compare one.node two.node = .eq → (one.container == two.container) = false :=
      live.pairwise_placements.filter _
    apply (hplaces.filter _).imp_of_mem
    intro one two hone htwo hdiffer
    have hnode : compare node one.node = .eq := by simpa using (List.mem_filter.1 hone).2
    have hother : compare node two.node = .eq := by simpa using (List.mem_filter.1 htwo).2
    exact hdiffer (TransCmp.eq_trans (OrientedCmp.eq_symm hnode) hother)

end PlanBuilder

end RegionGossip
