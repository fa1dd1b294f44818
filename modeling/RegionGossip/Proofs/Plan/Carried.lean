import RegionGossip.Proofs.Plan.Revisions

/-!
# What a seeded builder carries over

A builder that is made from the last plan and from what runs in a region joins the two by node and
container, whatever the spelling. What runs decides which containers are listed, where, and in which
order; of the last plan nothing is seen but the settings in the first entry of each container that is
active on the same node.
-/

namespace RegionGossip

open Std

/-- Of a row of entries with increasing keys, only the one that is found contributes for a key. -/
theorem SortedMap.flatMap_entry? {κ α β : Type} [Ord κ] [TransOrd κ] (map : SortedMap κ α) (key : κ)
    (items : κ × α → List β) :
    (map.entries.flatMap fun entry => if compare key entry.1 = .eq then items entry else []) =
      (map.entry? key).elim [] items := by
  obtain ⟨entries, hincreasing⟩ := map
  show _ = (findEntry entries key).elim [] items
  induction entries with
  | nil => rfl
  | cons head rest ih =>
    obtain ⟨hhead, hrest⟩ := List.pairwise_cons.1 hincreasing
    rw [List.flatMap_cons, findEntry_cons]
    by_cases hkey : compare key head.1 = .eq
    · have hothers : findEntry rest key = none :=
        findEntry_of_below fun entry hentry => TransCmp.lt_of_eq_of_lt hkey (hhead entry hentry)
      rw [if_pos hkey, if_pos hkey, ih hrest, hothers]
      exact List.append_nil _
    · rw [if_neg hkey, if_neg hkey, List.nil_append]
      exact ih hrest

namespace LiveState

variable {live : LiveState} {node : NodeId} {container : ContainerId}

/-- The active containers of a node in the order of their identifiers, as they are spelled there. -/
def activeOn (live : LiveState) (node : NodeId) : List (ContainerId × ContainerState) :=
  ((live.nodes.get? node).getD ∅).entries.filter fun entry => entry.2.status.isActive

/-- The active containers of a node are in the order of their identifiers, and no two are equal. -/
theorem pairwise_activeOn (live : LiveState) (node : NodeId) :
    (live.activeOn node).Pairwise fun one two => compare one.1 two.1 = .lt :=
  SortedMap.increasing_filter _ (SortedMap.increasing _)

/-- The places of active containers on a node are those of its active containers, under one spelling
of the node. -/
theorem filter_active (live : LiveState) (node : NodeId) :
    ∃ held, compare node held = .eq ∧
      (live.active.filter fun placement => compare node placement.node == .eq) =
        (live.activeOn node).map fun (container, state) => ⟨held, container, state⟩ := by
  have hrow (entry : NodeId × SortedMap ContainerId ContainerState) :
      (entry.2.entries.map fun (container, state) => Placement.mk entry.1 container state).filter
          (fun placement => compare node placement.node == .eq && placement.state.status.isActive) =
        if compare node entry.1 = .eq then
          (entry.2.entries.filter fun (_, state) => state.status.isActive).map
            fun (container, state) => ⟨entry.1, container, state⟩
        else [] := by
    rw [List.filter_map]
    by_cases hnode : compare node entry.1 = .eq
    · simp [hnode, Function.comp_def]
    · simp [hnode, Function.comp_def]
  have hentry : (live.active.filter fun placement => compare node placement.node == .eq) =
      (live.nodes.entry? node).elim [] fun entry =>
        (entry.2.entries.filter fun (_, state) => state.status.isActive).map
          fun (container, state) => ⟨entry.1, container, state⟩ := by
    rw [← live.nodes.flatMap_entry? node, active, placements, List.filter_filter, List.filter_flatMap]
    exact List.flatMap_congr fun entry _ => hrow entry
  rw [hentry, activeOn, SortedMap.get?]
  cases hfound : live.nodes.entry? node with
  | none => exact ⟨node, ReflCmp.compare_self, rfl⟩
  | some entry =>
    have hkey : compare node entry.1 = .eq := by simpa using List.find?_some hfound
    exact ⟨entry.1, hkey, rfl⟩

/-- What is active on a node is what is known to be there with an active status. -/
theorem exists_mem_activeOn_iff {state : ContainerState} :
    (∃ held, (held, state) ∈ live.activeOn node ∧ compare container held = .eq) ↔
      live.container? node container = some state ∧ state.status.isActive = true := by
  have hknown : live.container? node container =
      ((live.nodes.get? node).getD ∅).get? container := by
    rw [container?]
    cases live.nodes.get? node <;> rfl
  rw [hknown, activeOn]
  constructor
  · rintro ⟨held, hmem, hsame⟩
    obtain ⟨hentry, hactive⟩ := List.mem_filter.1 hmem
    rw [SortedMap.get?_congr _ hsame, SortedMap.get?_of_mem _ hentry]
    exact ⟨rfl, hactive⟩
  · rintro ⟨hget, hactive⟩
    obtain ⟨held, hentry, hsame⟩ := SortedMap.exists_mem_of_get? hget
    exact ⟨held, List.mem_filter.2 ⟨hentry, hactive⟩, hsame⟩

/-- A node has an active container when a container is active on it. -/
theorem activeOn_ne_nil_iff :
    live.activeOn node ≠ [] ↔ ∃ container, live.isActive node container = true := by
  constructor
  · intro hne
    obtain ⟨⟨container, state⟩, hmem⟩ := List.exists_mem_of_ne_nil _ hne
    obtain ⟨hstate, hactive⟩ := exists_mem_activeOn_iff.1 ⟨container, hmem, ReflCmp.compare_self⟩
    exact ⟨container, by rw [isActive, hstate, Option.any_some, hactive]⟩
  · rintro ⟨container, hactive⟩
    obtain ⟨state, hstate⟩ := (Option.any_eq_true _ _).1 hactive
    obtain ⟨held, hmem, -⟩ := exists_mem_activeOn_iff.2 hstate
    exact List.ne_nil_of_mem hmem

end LiveState

/-- What a planner can set of a container: its weight, whether it gets no more traffic, and whether it
is to be stopped. -/
def PlanEntry.settings (entry : PlanEntry) : Binary64 × Bool × Bool :=
  (entry.weight, entry.stopTraffic, entry.stop)

namespace Plan

/-- The settings that the first entry of a plan for a container on a node has, and those of a new
container where there is none. -/
def settingsFor (plan : Plan) (node : NodeId) (container : ContainerId) : Binary64 × Bool × Bool :=
  ((plan.entryFor? node container).map PlanEntry.settings).getD (.one, false, false)

/-- The settings of a container do not depend on how it or its node is spelled. -/
theorem settingsFor_congr {plan : Plan} {one two : NodeId} {first second : ContainerId}
    (hnode : compare one two = .eq) (hcontainer : compare first second = .eq) :
    plan.settingsFor one first = plan.settingsFor two second := by
  rw [settingsFor, settingsFor, entryFor?_congr hnode hcontainer]

end Plan

namespace PlanBuilder

variable {previous : Plan} {live : LiveState} {node : NodeId}

/-- The entry of a container that runs a service, with some settings. -/
def entryWith (container : ContainerId) (service : ServiceId) (settings : Binary64 × Bool × Bool) :
    PlanEntry :=
  ⟨some container, service, settings.1, settings.2.1, settings.2.2⟩

/-- Of the last plan only the settings of a container are carried over. -/
theorem carryOver_eq (previous : Plan) (placement : Placement) :
    carryOver previous placement = entryWith placement.container placement.state.service
      (previous.settingsFor placement.node placement.container) := by
  rw [carryOver, Plan.settingsFor, Plan.entryFor?, PlanEntry.first?]
  cases (previous.containers placement.node).find? (·.isFor placement.container) <;> rfl

/-- A seeded builder has the active containers of each node with their settings. -/
theorem containers_ofPlan_eq (previous : Plan) (live : LiveState) (node : NodeId) :
    (ofPlan previous live).containers node = (live.activeOn node).map fun (container, state) =>
      entryWith container state.service (previous.settingsFor node container) := by
  obtain ⟨held, hsame, hplaces⟩ := live.filter_active node
  rw [containers_ofPlan, hplaces, List.map_map]
  apply List.map_congr_left
  rintro ⟨container, state⟩ -
  show carryOver previous ⟨held, container, state⟩ =
    entryWith container state.service (previous.settingsFor node container)
  rw [Plan.settingsFor_congr hsame ReflCmp.compare_self]
  exact carryOver_eq previous ⟨held, container, state⟩

/-- A seeded builder holds the nodes that have an active container. -/
theorem contains_ofPlan_iff : (ofPlan previous live).services.contains node = true ↔
    ∃ container, live.isActive node container = true := by
  have hcontainers : (ofPlan previous live).containers node ≠ [] ↔ live.activeOn node ≠ [] := by
    rw [containers_ofPlan_eq, ne_eq, List.map_eq_nil_iff]
  rw [← LiveState.activeOn_ne_nil_iff, ← hcontainers]
  constructor
  · exact filled_origin (.seeded previous live) node
  · intro hne
    rw [SortedMap.contains_eq_isSome]
    cases hget : (ofPlan previous live).services.get? node with
    | some entries => rfl
    | none =>
      rw [containers, hget] at hne
      contradiction

/-- A seeded builder depends on no more of the last plan than the settings of the active
containers. -/
theorem ofPlan_congr {other : Plan}
    (hsame : ∀ node container, live.isActive node container = true →
      previous.settingsFor node container = other.settingsFor node container) :
    ofPlan previous live = ofPlan other live := by
  refine List.foldl_ext _ _ _ fun builder placement hplacement => ?_
  have hactive : live.isActive placement.node placement.container = true :=
    LiveState.isActive_iff.2
      ⟨placement, hplacement, ReflCmp.compare_self, ReflCmp.compare_self⟩
  rw [carryOver_eq, carryOver_eq, hsame _ _ hactive]

/-- A builder that is made from a plan and from what runs in a region is for this region. It has a
list for exactly the nodes on which a container is active: the active containers there, each of them
once and in the order of identifiers, as they are spelled in the live state and with the services they
run there. The settings of a container are those of the first entry that the plan has for it on the
same node, and those of a new container where the plan has none. Nothing else of the plan matters. -/
theorem seeded_from_active (previous : Plan) (live : LiveState) :
    (ofPlan previous live).region = live.region ∧
    (∀ node, (ofPlan previous live).containers node =
      (live.activeOn node).map fun (container, state) =>
        entryWith container state.service (previous.settingsFor node container)) ∧
    (∀ node, (live.activeOn node).Pairwise fun one two => compare one.1 two.1 = .lt) ∧
    (∀ node container state,
      (∃ held, (held, state) ∈ live.activeOn node ∧ compare container held = .eq) ↔
        live.container? node container = some state ∧ state.status.isActive = true) ∧
    (∀ node, (ofPlan previous live).services.contains node = true ↔
      ∃ container, live.isActive node container = true) ∧
    ∀ other : Plan,
      (∀ node container, live.isActive node container = true →
        previous.settingsFor node container = other.settingsFor node container) →
      ofPlan other live = ofPlan previous live :=
  ⟨region_ofPlan previous live, containers_ofPlan_eq previous live, live.pairwise_activeOn,
    fun _ _ _ => LiveState.exists_mem_activeOn_iff, fun _ => contains_ofPlan_iff,
    fun _ hsame => (ofPlan_congr hsame).symm⟩

/-- A region in which two containers of the node `N1` are active. A third one is stopped there, and
what is on another node is stopping. -/
def revival : LiveState :=
  ((((LiveState.empty ⟨"east"⟩).insert ⟨"N1"⟩ ⟨"c2"⟩ ⟨⟨"audio"⟩, .starting⟩).insert
    ⟨"n1"⟩ ⟨"c1"⟩ ⟨⟨"video"⟩, .running⟩).insert ⟨"n1"⟩ ⟨"c3"⟩ ⟨⟨"video"⟩, .stopped⟩).insert
    ⟨"n2"⟩ ⟨"c2"⟩ ⟨⟨"audio"⟩, .stopping⟩

/-- The entry of the first container, which ran another service then. -/
def billed : PlanEntry := ⟨some ⟨"C1"⟩, ⟨"lights"⟩, .ofInt 3, true, false⟩

/-- A plan of another region that has nothing but the entry of the first container. -/
def shortBill : Plan :=
  { Plan.null ⟨"west"⟩ ⟨0, 0⟩ with services := .ofList [(⟨"n1"⟩, [billed])] }

/-- The same plan with a container that is to be created, a second entry of the first container, one
of a stopped container, and one of the second container on another node. -/
def longBill : Plan :=
  { Plan.null ⟨"west"⟩ ⟨0, 0⟩ with
    services := .ofList [
      (⟨"n1"⟩, [.toCreate ⟨"audio"⟩ (.ofInt 9), billed,
        ⟨some ⟨"c1"⟩, ⟨"video"⟩, .ofInt 5, false, true⟩,
        ⟨some ⟨"c3"⟩, ⟨"video"⟩, .ofInt 7, true, true⟩]),
      (⟨"n2"⟩, [⟨some ⟨"c2"⟩, ⟨"audio"⟩, .ofInt 2, true, true⟩])] }

/-- Both plans seed the same builder: the first container with its old weight, the second one as if it
was new, and nothing on the other node. -/
theorem revival_carries_over :
    (ofPlan longBill revival).containers ⟨"n1"⟩ =
        [⟨some ⟨"c1"⟩, ⟨"video"⟩, .ofInt 3, true, false⟩,
          ⟨some ⟨"c2"⟩, ⟨"audio"⟩, .one, false, false⟩] ∧
      (ofPlan longBill revival).services.contains ⟨"n2"⟩ = false ∧
      (∀ node container, revival.isActive node container = true →
        longBill.settingsFor node container = shortBill.settingsFor node container) ∧
      ofPlan shortBill revival = ofPlan longBill revival := by
  obtain ⟨-, hcontainers, -, -, -, hsettings⟩ := seeded_from_active longBill revival
  have hagree (node : NodeId) (container : ContainerId)
      (hactive : revival.isActive node container = true) :
      longBill.settingsFor node container = shortBill.settingsFor node container := by
    obtain ⟨placement, hplacement, hnode, hcontainer⟩ := LiveState.isActive_iff.1 hactive
    rw [Plan.settingsFor_congr hnode hcontainer, Plan.settingsFor_congr hnode hcontainer]
    have hall : ∀ placement ∈ revival.active,
        longBill.settingsFor placement.node placement.container =
          shortBill.settingsFor placement.node placement.container := by decide +kernel
    exact hall placement hplacement
  exact ⟨(hcontainers ⟨"n1"⟩).trans rfl, by decide +kernel, hagree, hsettings shortBill hagree⟩

end PlanBuilder

end RegionGossip
