import RegionGossip.Proofs.Plan.Seeding

/-!
# The entry of a container

A builder lists a container with one entry. What a call does to this entry depends on the call
alone, as far as it succeeds: it leaves the entry as it is unless it is about this container on this
node. So after any calls each setting of the entry is what the last successful call on it said, or
what it was before. A seeded builder has an entry for exactly the active containers, with the
settings of the last plan.
-/

namespace RegionGossip

open Std

/-- The entry of a container among some entries. -/
def PlanEntry.first? (container : ContainerId) (entries : List PlanEntry) : Option PlanEntry :=
  entries.find? (·.isFor container)

/-- The entry of a container in a plan. -/
def Plan.entryFor? (plan : Plan) (node : NodeId) (container : ContainerId) : Option PlanEntry :=
  PlanEntry.first? container (plan.containers node)

namespace PlanBuilder

variable {builder : PlanBuilder} {node : NodeId} {container : ContainerId}

/-- The entry of a container in a builder. -/
def entryFor? (builder : PlanBuilder) (node : NodeId) (container : ContainerId) :
    Option PlanEntry :=
  PlanEntry.first? container (builder.containers node)

/-- Whether a builder has an entry for a container on a node. -/
def Lists (builder : PlanBuilder) (node : NodeId) (container : ContainerId) : Prop :=
  ∃ entry ∈ builder.containers node, entry.isFor container = true

/-- A setting of an entry, with the calls that make it and its value where there was none. It does
not depend on which container the entry is for or on what that runs. -/
structure Setting (α : Type) where
  read : PlanEntry → α
  made : NodeId → ContainerId → Call → Option α
  initial : α
  read_revise : ∀ node container call entry,
    read (call.revise node container entry) = (made node container call).getD (read entry)
  read_assigned : ∀ entry container service, read { entry with container, service } = read entry
  read_existing : ∀ container service, read (.existing container service) = initial

/-- The weight of a container. -/
def Setting.weight : Setting Binary64 where
  read := PlanEntry.weight
  made := Call.weight?
  initial := .one
  read_revise _ _ _ _ := rfl
  read_assigned _ _ _ := rfl
  read_existing _ _ := rfl

/-- Whether a container gets no more traffic. -/
def Setting.stopTraffic : Setting Bool where
  read := PlanEntry.stopTraffic
  made := Call.stopTraffic?
  initial := false
  read_revise _ _ _ _ := rfl
  read_assigned _ _ _ := rfl
  read_existing _ _ := rfl

/-- Whether a container is to be stopped. -/
def Setting.stop : Setting Bool where
  read := PlanEntry.stop
  made := Call.stop?
  initial := false
  read_revise _ _ _ _ := rfl
  read_assigned _ _ _ := rfl
  read_existing _ _ := rfl

/-! ## Calls -/

/-- Entries of the same container are for the same containers. -/
theorem isFor_congr {entry other : PlanEntry} (hcontainer : entry.container = other.container)
    (container : ContainerId) : entry.isFor container = other.isFor container := by
  rw [PlanEntry.isFor, PlanEntry.isFor, hcontainer]

/-- An entry that is for a container holds a spelling of it. -/
theorem exists_of_isFor {entry : PlanEntry} {target : ContainerId}
    (hfor : entry.isFor target = true) :
    ∃ held, entry.container = some held ∧ (held == target) = true := by
  rw [PlanEntry.isFor] at hfor
  cases hentry : entry.container with
  | none => simp [hentry] at hfor
  | some held => exact ⟨held, rfl, by simpa [hentry] using hfor⟩

/-- An entry is for every spelling of its container, and for no other container. -/
theorem isFor_eq_beq {entry : PlanEntry} {target : ContainerId} (hfor : entry.isFor target = true)
    (container : ContainerId) : entry.isFor container = (container == target) := by
  obtain ⟨held, hentry, hheld⟩ := exists_of_isFor hfor
  rw [PlanEntry.isFor, hentry, Option.some_beq_some, BEq.congr_left hheld, BEq.comm]

/-- Entries that are for a container are for every spelling of it. -/
theorem isFor_congr_container {one two : ContainerId} (hsame : compare one two = .eq)
    (entry : PlanEntry) : entry.isFor one = entry.isFor two := by
  rw [PlanEntry.isFor, PlanEntry.isFor]
  cases entry.container with
  | none => rfl
  | some held =>
    rw [Option.some_beq_some, Option.some_beq_some]
    exact BEq.congr_right (Ident.compare_eq_iff_beq.1 hsame)

/-- The first entry of a container is changed, and the entries of other containers stay. -/
theorem first?_changeFirst {change : PlanEntry → PlanEntry} (target : ContainerId)
    (hchange : ∀ entry, (change entry).container = entry.container) (container : ContainerId)
    (entries : List PlanEntry) :
    PlanEntry.first? container (changeFirst target change entries) =
      (PlanEntry.first? container entries).map fun entry =>
        if container == target then change entry else entry := by
  induction entries with
  | nil => rfl
  | cons entry rest ih =>
    rw [PlanEntry.first?, PlanEntry.first?] at ih ⊢
    rw [changeFirst]
    by_cases htarget : entry.isFor target = true
    · have hfor := isFor_eq_beq htarget container
      have hchanged := (isFor_congr (hchange entry) container).trans hfor
      rw [if_pos htarget]
      cases hsame : container == target <;> simp [hfor, hchanged, hsame]
    · rw [if_neg htarget, List.find?_cons, List.find?_cons]
      cases hfor : entry.isFor container with
      | false => exact ih
      | true =>
        -- the entry is for the one container and not for the other
        have hne : (container == target) = false := by
          rw [Bool.eq_false_iff]
          intro hsame
          rw [isFor_eq_beq hfor target, BEq.symm hsame] at htarget
          exact htarget rfl
        simp [hne]

/-- A change of the entry of a container changes the entry of no other one. -/
theorem entryFor?_change {changed : PlanBuilder} {other : NodeId} {target : ContainerId}
    {change : PlanEntry → PlanEntry}
    (hanswer : builder.change other target change = .ok changed)
    (hchange : ∀ entry, (change entry).container = entry.container) :
    changed.entryFor? node container = (builder.entryFor? node container).map fun entry =>
      if node == other && container == target then change entry else entry := by
  rw [entryFor?, entryFor?, containers_change hanswer]
  cases node == other with
  | false => simp
  | true => exact first?_changeFirst target hchange container _

/-- An entry without a container is the entry of no container. -/
theorem entryFor?_push (other : NodeId) {entry : PlanEntry} (hnone : entry.container = none) :
    (builder.push other entry).entryFor? node container = builder.entryFor? node container := by
  rw [entryFor?, entryFor?, containers_push]
  split
  · have hfor : entry.isFor container = false := by simp [PlanEntry.isFor, hnone]
    simp [PlanEntry.first?, List.find?_append, hfor]
  · rfl

/-- A call that succeeds revises the entry of each container. -/
theorem entryFor?_answer {changed : PlanBuilder} {call : Call}
    (hanswer : builder.answer call = .ok changed) :
    changed.entryFor? node container =
      (builder.entryFor? node container).map (call.revise node container) := by
  rcases cases_of_answer hanswer with ⟨other, service, weight, rfl, -, rfl⟩ |
    ⟨other, target, htarget, -, hchange⟩
  · exact (entryFor?_push other rfl).trans Option.map_id'.symm
  · rw [entryFor?_change hchange fun _ => rfl]
    congr 1
    funext entry
    exact (Call.revise_eq_ite htarget node container entry).symm

/-- After some calls the entry of each container has been revised by those that succeeded. -/
theorem entryFor?_drive (calls : List Call) (builder : PlanBuilder) :
    (builder.drive calls).entryFor? node container =
      (builder.entryFor? node container).map fun entry =>
        (builder.accepted calls).foldl (fun entry call => call.revise node container entry) entry := by
  induction calls generalizing builder with
  | nil => exact Option.map_id'.symm
  | cons call later ih =>
    rw [drive, List.foldl_cons, ← drive, perform, accepted]
    cases hanswer : builder.answer call with
    | error error => exact ih builder
    | ok changed =>
      rw [ih changed, entryFor?_answer hanswer, Option.map_map]
      rfl

/-- What the last of some calls on a setting says. -/
def Setting.last {α : Type} (setting : Setting α) (node : NodeId) (container : ContainerId)
    (calls : List Call) : Option α :=
  calls.reverse.findSome? (setting.made node container)

/-- One more call in front of some counts where none of them is on the setting. -/
theorem Setting.getD_last_cons {α : Type} (setting : Setting α) (node : NodeId)
    (container : ContainerId) (call : Call) (later : List Call) (value : α) :
    (setting.last node container (call :: later)).getD value =
      (setting.last node container later).getD ((setting.made node container call).getD value) := by
  rw [last, last, List.reverse_cons, List.findSome?_append]
  cases later.reverse.findSome? (setting.made node container) with
  | some made => rfl
  | none => cases hmade : setting.made node container call <;> simp [hmade]

/-- After some calls a setting is what the last of them on it said. -/
theorem Setting.read_foldl_revise {α : Type} (setting : Setting α) (calls : List Call)
    (entry : PlanEntry) :
    setting.read (calls.foldl (fun entry call => call.revise node container entry) entry) =
      (setting.last node container calls).getD (setting.read entry) := by
  induction calls generalizing entry with
  | nil => rfl
  | cons call later ih => rw [List.foldl_cons, ih, setting.read_revise, setting.getD_last_cons]

/-! ## Seeding -/

/-- A seeded builder lists the active containers of a node. -/
theorem containers_ofPlan (previous : Plan) (live : LiveState) (node : NodeId) :
    (ofPlan previous live).containers node =
      (live.active.filter fun placement => compare node placement.node == .eq).map
        (carryOver previous) := by
  have hfoldl (placements : List Placement) (builder : PlanBuilder) :
      (placements.foldl (fun builder placement =>
          builder.push placement.node (carryOver previous placement)) builder).containers node =
        builder.containers node ++
          (placements.filter fun placement => compare node placement.node == .eq).map
            (carryOver previous) := by
    induction placements generalizing builder with
    | nil => exact (List.append_nil _).symm
    | cons placement rest ih =>
      rw [List.foldl_cons, ih, containers_push]
      by_cases hnode : compare node placement.node = .eq
      · rw [if_pos hnode, List.filter_cons_of_pos (by simpa using hnode), List.map_cons,
          List.append_assoc, List.singleton_append]
      · rw [if_neg hnode, List.filter_cons_of_neg (by simpa using hnode)]
  exact hfoldl live.active (empty live.region)

/-- An entry that is carried over is for its container. -/
theorem isFor_carryOver {previous : Plan} {placement : Placement} {container : ContainerId} :
    (carryOver previous placement).isFor container = true ↔
      compare container placement.container = .eq := by
  have hown : (carryOver previous placement).isFor placement.container = true := by
    have hcontainer : (carryOver previous placement).container = some placement.container := by
      rw [carryOver]
      split <;> rfl
    rw [PlanEntry.isFor, hcontainer]
    exact BEq.rfl
  rw [isFor_eq_beq hown, Ident.compare_eq_iff_beq]

end PlanBuilder

namespace LiveState

variable {live : LiveState} {node : NodeId} {container : ContainerId}

/-- What is known of a container on a node is one of the placements. -/
theorem exists_placement {state : ContainerState}
    (hstate : live.container? node container = some state) :
    ∃ placement ∈ live.placements, compare node placement.node = .eq ∧
      compare container placement.container = .eq ∧ placement.state = state := by
  obtain ⟨containers, hnode, hcontainer⟩ := Option.bind_eq_some_iff.1 hstate
  obtain ⟨heldNode, hmemNode, hsameNode⟩ := SortedMap.exists_mem_of_get? hnode
  obtain ⟨heldContainer, hmemContainer, hsameContainer⟩ := SortedMap.exists_mem_of_get? hcontainer
  refine ⟨⟨heldNode, heldContainer, state⟩, ?_, hsameNode, hsameContainer, rfl⟩
  exact List.mem_flatMap.2 ⟨_, hmemNode, List.mem_map.2 ⟨_, hmemContainer, rfl⟩⟩

/-- The active containers are those that are placed with an active status. -/
theorem isActive_iff : live.isActive node container = true ↔ ∃ placement ∈ live.active,
    compare node placement.node = .eq ∧ compare container placement.container = .eq := by
  rw [isActive, Option.any_eq_true]
  constructor
  · rintro ⟨state, hstate, hactive⟩
    obtain ⟨placement, hplacement, hnode, hcontainer, rfl⟩ := exists_placement hstate
    exact ⟨placement, List.mem_filter.2 ⟨hplacement, hactive⟩, hnode, hcontainer⟩
  · rintro ⟨placement, hplacement, hnode, hcontainer⟩
    obtain ⟨hplaced, hactive⟩ := List.mem_filter.1 hplacement
    refine ⟨placement.state, ?_, hactive⟩
    have hfound := container?_of_mem_placements hplaced
    rw [container?, ← live.nodes.get?_congr hnode] at hfound
    obtain ⟨containers, hcontainers, hstate⟩ := Option.bind_eq_some_iff.1 hfound
    rw [container?, hcontainers, Option.bind_some, containers.get?_congr hcontainer, hstate]

end LiveState

/-- The entry of a container does not depend on how the container or its node is spelled. -/
theorem Plan.entryFor?_congr {plan : Plan} {one two : NodeId} {first second : ContainerId}
    (hnode : compare one two = .eq) (hcontainer : compare first second = .eq) :
    plan.entryFor? one first = plan.entryFor? two second := by
  rw [entryFor?, entryFor?, PlanEntry.first?, PlanEntry.first?, containers, containers,
    plan.services.get?_congr hnode]
  simp only [PlanBuilder.isFor_congr_container hcontainer]

namespace PlanBuilder

variable {previous : Plan} {live : LiveState} {node : NodeId} {container : ContainerId}

/-- A setting of a container in a plan, or its initial value where the container is not listed. -/
def Setting.inPlan {α : Type} (setting : Setting α) (plan : Plan) (node : NodeId)
    (container : ContainerId) : α :=
  ((plan.entryFor? node container).map setting.read).getD setting.initial

/-- A seeded builder has no entry for a container that is not active. -/
theorem entryFor?_ofPlan_of_inactive (hinactive : live.isActive node container = false) :
    (ofPlan previous live).entryFor? node container = none := by
  rw [entryFor?, PlanEntry.first?, List.find?_eq_none, containers_ofPlan]
  intro entry hentry hfor
  obtain ⟨placement, hplacement, rfl⟩ := List.mem_map.1 hentry
  obtain ⟨hactive, hnode⟩ := List.mem_filter.1 hplacement
  rw [LiveState.isActive_iff.2
    ⟨placement, hactive, by simpa using hnode, isFor_carryOver.1 hfor⟩] at hinactive
  contradiction

/-- A seeded builder has the entry of an active container carried over. -/
theorem exists_entryFor?_ofPlan (previous : Plan) (hactive : live.isActive node container = true) :
    ∃ placement, compare node placement.node = .eq ∧
      compare container placement.container = .eq ∧
      (ofPlan previous live).entryFor? node container = some (carryOver previous placement) := by
  obtain ⟨placement, hplacement, hnode, hcontainer⟩ := LiveState.isActive_iff.1 hactive
  have hmem : carryOver previous placement ∈ (ofPlan previous live).containers node := by
    rw [containers_ofPlan]
    exact List.mem_map.2 ⟨placement, List.mem_filter.2 ⟨hplacement, by simpa using hnode⟩, rfl⟩
  cases hfound : (ofPlan previous live).entryFor? node container with
  | none => exact absurd (isFor_carryOver.2 hcontainer) (List.find?_eq_none.1 hfound _ hmem)
  | some entry =>
    rw [entryFor?, PlanEntry.first?] at hfound
    have hentry := List.mem_of_find?_eq_some hfound
    rw [containers_ofPlan] at hentry
    obtain ⟨other, hother, rfl⟩ := List.mem_map.1 hentry
    obtain ⟨-, hnode⟩ := List.mem_filter.1 hother
    exact ⟨other, by simpa using hnode,
      isFor_carryOver.1 (by simpa using List.find?_some hfound), rfl⟩

/-- An entry that is carried over has the settings of the last plan. -/
theorem Setting.read_carryOver {α : Type} (setting : Setting α) {placement : Placement}
    (hnode : compare node placement.node = .eq)
    (hcontainer : compare container placement.container = .eq) :
    setting.read (carryOver previous placement) = setting.inPlan previous node container := by
  rw [inPlan, Plan.entryFor?_congr hnode hcontainer, Plan.entryFor?, PlanEntry.first?, carryOver]
  cases (previous.containers placement.node).find? (·.isFor placement.container) with
  | none => exact setting.read_existing ..
  | some entry => exact setting.read_assigned ..

end PlanBuilder

end RegionGossip
