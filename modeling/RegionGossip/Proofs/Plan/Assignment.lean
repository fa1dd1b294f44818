import RegionGossip.Proofs.Plan.Calls

/-!
# Which containers a builder assigns

What freezing a plan looks at is the region of a builder and, for each node, the containers it lists
with the services they are to run. A call can add an entry without a container, and it can change
the weight and the flags of an entry, but it changes neither of the two. So they stay as they were
when the builder was made.
-/

namespace RegionGossip.PlanBuilder

variable {builder : PlanBuilder}

/-- The container of an entry that has one, with the service it is to run. -/
def assignment (entry : PlanEntry) : Option (ContainerId × ServiceId) :=
  entry.container.map (·, entry.service)

/-- The containers that are listed for a node, with the services they are to run. -/
def assigned (builder : PlanBuilder) (node : NodeId) : List (ContainerId × ServiceId) :=
  (builder.containers node).filterMap assignment

/-- The listed containers are those of the assignments. -/
theorem filterMap_container (entries : List PlanEntry) :
    entries.filterMap PlanEntry.container = (entries.filterMap assignment).map Prod.fst := by
  rw [List.map_filterMap]
  congr 1
  funext entry
  cases hcontainer : entry.container <;> simp [assignment, hcontainer]

/-- An entry is added to the list of its node, in whatever spelling the node is given. -/
theorem containers_push (node other : NodeId) (entry : PlanEntry) :
    (builder.push node entry).containers other =
      if compare other node = .eq then builder.containers other ++ [entry]
      else builder.containers other := by
  rw [containers, push, SortedMap.get?_upsert]
  split
  · rename_i hnode
    rw [containers, builder.services.get?_congr hnode]
    rfl
  · rfl

/-- An added entry is assigned last if it has a container. -/
theorem assigned_push (node other : NodeId) (entry : PlanEntry) :
    (builder.push node entry).assigned other =
      if compare other node = .eq then builder.assigned other ++ (assignment entry).toList
      else builder.assigned other := by
  rw [assigned, containers_push]
  split
  · rw [List.filterMap_append, assigned]
    cases hentry : assignment entry <;> simp [hentry]
  · rfl

/-- Changes that leave containers and services alone leave the assignments of a list alone. -/
theorem filterMap_changeFirst {change : PlanEntry → PlanEntry} (container : ContainerId)
    (hchange : ∀ entry, assignment (change entry) = assignment entry) (entries : List PlanEntry) :
    (changeFirst container change entries).filterMap assignment =
      entries.filterMap assignment := by
  induction entries with
  | nil => rfl
  | cons entry rest ih =>
    rw [changeFirst]
    split
    · rw [List.filterMap_cons, List.filterMap_cons, hchange]
    · rw [List.filterMap_cons, List.filterMap_cons, ih]

/-- A change of the entry of a container keeps the region. -/
theorem region_change {changed : PlanBuilder} {node : NodeId} {container : ContainerId}
    {change : PlanEntry → PlanEntry}
    (hanswer : builder.change node container change = .ok changed) :
    changed.region = builder.region := by
  rw [PlanBuilder.change] at hanswer
  split at hanswer
  · obtain rfl := Except.ok.inj hanswer
    rfl
  · contradiction

/-- A change of the entry of a container is one of the entries of its node. -/
theorem containers_change {changed : PlanBuilder} {node : NodeId} {container : ContainerId}
    {change : PlanEntry → PlanEntry}
    (hanswer : builder.change node container change = .ok changed) (other : NodeId) :
    changed.containers other =
      if other == node then changeFirst container change (builder.containers other)
      else builder.containers other := by
  rw [PlanBuilder.change] at hanswer
  split at hanswer
  · obtain rfl := Except.ok.inj hanswer
    rw [containers, containers, SortedMap.get?_modify]
    simp only [Ident.compare_eq_iff_beq]
    split
    · cases builder.services.get? other <;> rfl
    · rfl
  · contradiction

/-- Changes that leave containers and services alone leave region and assignments alone. -/
theorem assigned_change {changed : PlanBuilder} {node : NodeId} {container : ContainerId}
    {change : PlanEntry → PlanEntry}
    (hchange : ∀ entry, assignment (change entry) = assignment entry)
    (hanswer : builder.change node container change = .ok changed) :
    changed.region = builder.region ∧ ∀ other, changed.assigned other = builder.assigned other := by
  refine ⟨region_change hanswer, fun other => ?_⟩
  rw [assigned, assigned, containers_change hanswer]
  split
  · exact filterMap_changeFirst container hchange _
  · rfl

/-- A call that succeeds leaves region and assignments alone. -/
theorem assigned_answer {changed : PlanBuilder} {call : Call}
    (hanswer : builder.answer call = .ok changed) :
    changed.region = builder.region ∧ ∀ node, changed.assigned node = builder.assigned node := by
  rcases cases_of_answer hanswer with ⟨node, service, weight, -, -, rfl⟩ |
    ⟨node, container, -, -, hchange⟩
  · refine ⟨rfl, fun other => ?_⟩
    rw [assigned_push]
    split
    · exact List.append_nil _
    · rfl
  · apply assigned_change _ hchange
    intro entry
    rfl

/-- No sequence of calls changes the region or the assignments. -/
theorem assigned_drive (builder : PlanBuilder) (calls : List Call) :
    (builder.drive calls).region = builder.region ∧
      ∀ node, (builder.drive calls).assigned node = builder.assigned node := by
  refine drive_keeps (motive := fun later => later.region = builder.region ∧
    ∀ node, later.assigned node = builder.assigned node) ?_ ⟨rfl, fun _ => rfl⟩ calls
  rintro before after call ⟨hregion, hassigned⟩ hanswer
  obtain ⟨hcallRegion, hcallAssigned⟩ := assigned_answer hanswer
  exact ⟨hcallRegion.trans hregion, fun node => (hcallAssigned node).trans (hassigned node)⟩

end RegionGossip.PlanBuilder
