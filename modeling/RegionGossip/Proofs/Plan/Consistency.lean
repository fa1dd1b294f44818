import RegionGossip.Proofs.Plan.Entries

/-!
# Plans that fit their region

What freezing asks of a builder is said here without its checks: builder and live state are for the
same region, no node has a container twice, every active container has an entry on its own node, and
an entry for a container that is known on its node, active or not, assigns the service which that
container has. Names are compared without regard to the case of ASCII letters throughout.

Freezing accepts exactly the builders that fit, and what it says of the others is true of them. Which
of several faults is reported is not part of the description.
-/

namespace RegionGossip

open Std

/-- What a fault says of a builder and of what runs in a region. -/
def PlanFault.AppliesTo (builder : PlanBuilder) (live : LiveState) : PlanFault → Prop
  | .wrongRegion planned actual =>
    planned = builder.region ∧ actual = live.region ∧ (actual == planned) = false
  | .repeated container node =>
    ∃ front back, (builder.containers node).filterMap PlanEntry.container =
      front ++ container :: back ∧ front.contains container = true
  | .missing container node =>
    live.isActive node container = true ∧
      ∀ entry ∈ builder.containers node, entry.isFor container = false
  | .wrongService container node actual planned =>
    ∃ entry ∈ builder.containers node, entry.container = some container ∧ entry.service = planned ∧
      ∃ state, live.container? node container = some state ∧ state.service = actual ∧
        (actual == planned) = false

namespace PlanBuilder

variable {builder : PlanBuilder} {live : LiveState} {fault : PlanFault} {node : NodeId}

/-- A builder that fits what runs in a region. -/
structure Consistent (builder : PlanBuilder) (live : LiveState) : Prop where
  sameRegion : (live.region == builder.region) = true
  unrepeated : ∀ node, ((builder.containers node).filterMap PlanEntry.container).Pairwise
    fun one two => (one == two) = false
  listed : ∀ node container, live.isActive node container = true → builder.Lists node container
  assigned : ∀ node, ∀ entry ∈ builder.containers node, ∀ container,
    entry.container = some container → ∀ state, live.container? node container = some state →
      (state.service == entry.service) = true

/-- No container is repeated among different ones. -/
theorem not_appliesTo_repeated {container : ContainerId}
    (hdifferent : ((builder.containers node).filterMap PlanEntry.container).Pairwise
      fun one two => (one == two) = false) :
    ¬ (PlanFault.repeated container node).AppliesTo builder live := by
  rintro ⟨front, back, hsplit, hfront⟩
  obtain ⟨earlier, hearlier, hsame⟩ := List.contains_iff_exists_mem_beq.1 hfront
  rw [hsplit] at hdifferent
  have hdiffer : (earlier == container) = false :=
    (List.pairwise_append.1 hdifferent).2.2 earlier hearlier container List.mem_cons_self
  rw [BEq.symm hsame] at hdiffer
  contradiction

/-- No fault applies to a builder that fits. -/
theorem Consistent.not_appliesTo (hfits : builder.Consistent live) (fault : PlanFault) :
    ¬ fault.AppliesTo builder live := by
  intro hfault
  cases fault with
  | wrongRegion planned actual =>
    obtain ⟨rfl, rfl, hdiffer⟩ := hfault
    simp [hfits.sameRegion] at hdiffer
  | repeated container node => exact not_appliesTo_repeated (hfits.unrepeated node) hfault
  | missing container node =>
    obtain ⟨hactive, hnone⟩ := hfault
    obtain ⟨entry, hentry, hfor⟩ := hfits.listed node container hactive
    rw [hnone entry hentry] at hfor
    contradiction
  | wrongService container node actual planned =>
    obtain ⟨entry, hentry, hcontainer, rfl, state, hstate, rfl, hdiffer⟩ := hfault
    rw [hfits.assigned node entry hentry container hcontainer state hstate] at hdiffer
    contradiction

/-! ## Repeated containers -/

/-- The search for a repeated container finds nothing exactly when none was seen before and none
comes twice. -/
theorem firstRepeated_eq_none_iff (seen containers : List ContainerId) :
    firstRepeated seen containers = none ↔
      (∀ container ∈ containers, seen.contains container = false) ∧
        containers.Pairwise fun one two => (one == two) = false := by
  induction containers generalizing seen with
  | nil => simp [firstRepeated]
  | cons container rest ih =>
    rw [firstRepeated, List.pairwise_cons, List.forall_mem_cons]
    by_cases hseen : seen.contains container = true
    · simp [hseen]
    · have hnew : seen.contains container = false := by simpa using hseen
      rw [if_neg hseen, ih]
      constructor
      · rintro ⟨hlater, hrest⟩
        have hsplit : ∀ other ∈ rest, (other == container) = false ∧ seen.contains other = false :=
          fun other hother => by simpa [List.contains_cons] using hlater other hother
        refine ⟨⟨hnew, fun other hother => (hsplit other hother).2⟩, fun other hother => ?_, hrest⟩
        rw [BEq.comm]
        exact (hsplit other hother).1
      · rintro ⟨⟨-, hlater⟩, hfirst, hrest⟩
        refine ⟨fun other hother => ?_, hrest⟩
        rw [List.contains_cons, BEq.comm, hfirst other hother, hlater other hother]
        rfl

/-- A container that is found to be repeated stands behind one that equals it, in the row or among
those that were seen before. -/
theorem exists_of_firstRepeated {seen containers : List ContainerId} {container : ContainerId}
    (hfound : firstRepeated seen containers = some container) :
    ∃ front back, containers = front ++ container :: back ∧
      (front ++ seen).contains container = true := by
  induction containers generalizing seen with
  | nil => contradiction
  | cons head rest ih =>
    rw [firstRepeated] at hfound
    split at hfound
    · rename_i hseen
      obtain rfl := Option.some.inj hfound
      exact ⟨[], rest, rfl, hseen⟩
    · obtain ⟨front, back, rfl, hfront⟩ := ih hfound
      refine ⟨head :: front, back, rfl, ?_⟩
      rw [List.contains_iff_exists_mem_beq] at hfront ⊢
      obtain ⟨earlier, hearlier, hsame⟩ := hfront
      refine ⟨earlier, ?_, hsame⟩
      -- the head was counted among the seen ones and now stands in front
      rwa [List.cons_append, ← List.perm_middle.mem_iff]

/-- The entries of a node are those that the builder holds for it. -/
theorem containers_of_mem {entries : List PlanEntry}
    (hnode : (node, entries) ∈ builder.services.entries) : builder.containers node = entries := by
  rw [containers, builder.services.get?_of_mem hnode]
  rfl

/-- Every node has no entries, or is held by the builder in some spelling. -/
theorem containers_eq_nil_or (builder : PlanBuilder) (node : NodeId) :
    builder.containers node = [] ∨
      ∃ held, (held, builder.containers node) ∈ builder.services.entries ∧
        compare node held = .eq := by
  rw [containers]
  cases hget : builder.services.get? node with
  | none => exact .inl rfl
  | some entries => exact .inr (SortedMap.exists_mem_of_get? hget)

/-- The check for repeated containers passes exactly when no node has one twice. -/
theorem repeated?_eq_none_iff :
    builder.repeated? = none ↔ ∀ node,
      ((builder.containers node).filterMap PlanEntry.container).Pairwise
        fun one two => (one == two) = false := by
  have hrow (entries : List PlanEntry) :
      firstRepeated [] (entries.filterMap PlanEntry.container) = none ↔
        (entries.filterMap PlanEntry.container).Pairwise fun one two => (one == two) = false :=
    (firstRepeated_eq_none_iff _ _).trans (and_iff_right fun _ _ => rfl)
  rw [repeated?, List.findSome?_eq_none_iff]
  constructor
  · intro hnone node
    rcases builder.containers_eq_nil_or node with hnil | ⟨held, hheld, -⟩
    · rw [hnil]
      exact List.Pairwise.nil
    · exact (hrow _).1 (Option.map_eq_none_iff.1 (hnone _ hheld))
  · rintro hdifferent ⟨node, entries⟩ hnode
    refine Option.map_eq_none_iff.2 ((hrow entries).2 ?_)
    rw [← containers_of_mem hnode]
    exact hdifferent node

/-- A container that is reported as repeated is. -/
theorem appliesTo_of_repeated? (hfault : builder.repeated? = some fault) :
    fault.AppliesTo builder live := by
  obtain ⟨⟨node, entries⟩, hnode, hentries⟩ := List.exists_of_findSome?_eq_some hfault
  obtain ⟨container, hfound, rfl⟩ := Option.map_eq_some_iff.1 hentries
  obtain ⟨front, back, hsplit, hfront⟩ := exists_of_firstRepeated hfound
  rw [List.append_nil] at hfront
  exact ⟨front, back, by rw [containers_of_mem hnode, hsplit], hfront⟩

/-! ## Missing containers -/

/-- Where the check for missing containers finds none, every active container has an entry. -/
theorem listed_of_missing?_eq_none (hnone : builder.missing? live = none) (node : NodeId)
    (container : ContainerId) (hactive : live.isActive node container = true) :
    builder.Lists node container := by
  rw [missing?, Option.map_eq_none_iff, List.find?_eq_none] at hnone
  obtain ⟨placement, hplacement, hnode, hcontainer⟩ := LiveState.isActive_iff.1 hactive
  have hlisted : (builder.containers placement.node).any (·.isFor placement.container) = true := by
    simpa using hnone placement hplacement
  obtain ⟨entry, hentry, hfor⟩ := List.any_eq_true.1 hlisted
  rw [containers, ← builder.services.get?_congr hnode] at hentry
  exact ⟨entry, hentry, (isFor_congr_container hcontainer entry).trans hfor⟩

/-- A container that is reported as missing is. -/
theorem appliesTo_of_missing? (hfault : builder.missing? live = some fault) :
    fault.AppliesTo builder live := by
  obtain ⟨placement, hfound, rfl⟩ := Option.map_eq_some_iff.1 hfault
  refine ⟨LiveState.isActive_iff.2 ⟨placement, List.mem_of_find?_eq_some hfound,
    ReflCmp.compare_self, ReflCmp.compare_self⟩, ?_⟩
  simpa using List.find?_some hfound

/-! ## Wrong services -/

/-- The service of an entry is wrong when the live state knows its container with another one. -/
theorem wrongService?_eq_some_iff {entry : PlanEntry} :
    wrongService? live node entry = some fault ↔
      ∃ container, entry.container = some container ∧
        ∃ state, live.container? node container = some state ∧
          (state.service == entry.service) = false ∧
          .wrongService container node state.service entry.service = fault := by
  rw [wrongService?]
  simp only [Option.bind_eq_bind, Option.bind_eq_some_iff]
  refine exists_congr fun container => and_congr_right fun _ => exists_congr fun state =>
    and_congr_right fun _ => ?_
  cases hsame : state.service == entry.service <;> simp [bne, hsame]

/-- Where the check for services finds nothing, every entry for a known container assigns the service
which that has. -/
theorem assigned_of_misassigned?_eq_none (hnone : builder.misassigned? live = none) (node : NodeId)
    (entry : PlanEntry) (hentry : entry ∈ builder.containers node) (container : ContainerId)
    (hcontainer : entry.container = some container) (state : ContainerState)
    (hstate : live.container? node container = some state) :
    (state.service == entry.service) = true := by
  rw [misassigned?, List.findSome?_eq_none_iff] at hnone
  rcases builder.containers_eq_nil_or node with hnil | ⟨held, hheld, hnode⟩
  · rw [hnil] at hentry
    contradiction
  · have hfine := List.findSome?_eq_none_iff.1 (hnone _ hheld) entry hentry
    rw [LiveState.container?, live.nodes.get?_congr hnode] at hstate
    by_contra hdiffer
    have hwrong := wrongService?_eq_some_iff.2
      ⟨container, hcontainer, state, hstate, by simpa using hdiffer, rfl⟩
    rw [hfine] at hwrong
    contradiction

/-- A service that is reported as wrong is. -/
theorem appliesTo_of_misassigned? (hfault : builder.misassigned? live = some fault) :
    fault.AppliesTo builder live := by
  obtain ⟨⟨node, entries⟩, hnode, hentries⟩ := List.exists_of_findSome?_eq_some hfault
  obtain ⟨entry, hentry, hwrong⟩ := List.exists_of_findSome?_eq_some hentries
  obtain ⟨container, hcontainer, state, hstate, hdiffer, rfl⟩ := wrongService?_eq_some_iff.1 hwrong
  rw [← containers_of_mem hnode] at hentry
  exact ⟨entry, hentry, hcontainer, rfl, state, hstate, rfl, hdiffer⟩

/-! ## All checks -/

/-- A fault that is reported applies. -/
theorem appliesTo_of_fault? (hfault : builder.fault? live = some fault) :
    fault.AppliesTo builder live := by
  rw [fault?] at hfault
  split at hfault
  · rename_i hregion
    obtain rfl := Option.some.inj hfault
    exact ⟨rfl, rfl, by simpa [bne] using hregion⟩
  · simp only [Option.orElse_eq_orElse, Option.orElse_eq_or, Option.or_eq_some_iff] at hfault
    rcases hfault with (hrepeated | ⟨-, hmissing⟩) | ⟨-, hmisassigned⟩
    · exact appliesTo_of_repeated? hrepeated
    · exact appliesTo_of_missing? hmissing
    · exact appliesTo_of_misassigned? hmisassigned

/-- A builder has no fault exactly when it fits. -/
theorem fault?_eq_none_iff : builder.fault? live = none ↔ builder.Consistent live := by
  constructor
  · intro hnone
    rw [fault?] at hnone
    split at hnone
    · contradiction
    · rename_i hregion
      simp only [Option.orElse_eq_orElse, Option.orElse_eq_or, Option.or_eq_none_iff] at hnone
      obtain ⟨⟨hrepeated, hmissing⟩, hmisassigned⟩ := hnone
      exact
        { sameRegion := by simpa [bne] using hregion
          unrepeated := repeated?_eq_none_iff.1 hrepeated
          listed := listed_of_missing?_eq_none hmissing
          assigned := assigned_of_misassigned?_eq_none hmisassigned }
  · intro hfits
    cases hfault : builder.fault? live with
    | none => rfl
    | some fault => exact absurd (appliesTo_of_fault? hfault) (hfits.not_appliesTo fault)

/-- Freezing yields a plan exactly for the builders that fit what runs in the region, and the plan is
the builder as it stands, with the given overflow plan. Every other builder is refused as invalid,
with a fault that applies to it. Freezing only reads the builder. -/
theorem freezes_iff_consistent (builder : PlanBuilder) (live : LiveState) (overflow : OverflowPlan)
    (timestamp : Timestamp) :
    (∀ plan, builder.freeze live overflow timestamp = .ok plan ↔
      builder.Consistent live ∧ plan = ⟨builder.region, timestamp, builder.services, overflow⟩) ∧
    (¬ builder.Consistent live ↔ ∃ fault, fault.AppliesTo builder live ∧
      builder.freeze live overflow timestamp = .error (.invalid fault)) := by
  rw [← fault?_eq_none_iff, freeze]
  cases hfault : builder.fault? live with
  | none =>
    refine ⟨fun plan => ?_, iff_of_false (not_not.2 rfl) nofun⟩
    simp [eq_comm]
  | some fault =>
    refine ⟨fun plan => iff_of_false nofun (by simp), iff_of_true nofun ?_⟩
    exact ⟨fault, appliesTo_of_fault? hfault, rfl⟩

end PlanBuilder

end RegionGossip
