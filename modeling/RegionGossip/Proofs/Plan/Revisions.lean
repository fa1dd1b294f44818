import RegionGossip.Binary64.Round
import RegionGossip.Proofs.Plan.Entries

/-!
# What a sequence of calls leaves behind

A builder that was made for a region, and then called any number of times, still has the entries it
was made with in front, in their old order, for the same containers and services. Each setting of
them is what the last successful call on it said. Behind them stand the new containers that were
asked for, in the order of the calls. Refused calls leave nothing behind, not even an empty list of
entries.

No entry of a builder that was just made is repeated, and this is used: a call revises the first
entry of a container, which among different containers is the only one.
-/

namespace RegionGossip.PlanBuilder

variable {builder changed : PlanBuilder} {node other : NodeId} {container target : ContainerId}
  {call : Call}

/-- The entry that a call adds on a node. -/
def Call.added? (node : NodeId) : Call → Option PlanEntry
  | .addService other service weight =>
    if node == other then some (.toCreate service weight) else none
  | _ => none

/-- What a call makes of an entry of a node. -/
def Call.amend (node : NodeId) (call : Call) (entry : PlanEntry) : PlanEntry :=
  match entry.container with
  | some container => call.revise node container entry
  | none => entry

/-- An entry of a node after some calls: each setting is what the last of them on it says, or what it
was before. -/
def settled (node : NodeId) (calls : List Call) (entry : PlanEntry) : PlanEntry :=
  match entry.container with
  | some container =>
    { entry with
      weight := (Setting.weight.last node container calls).getD entry.weight
      stopTraffic := (Setting.stopTraffic.last node container calls).getD entry.stopTraffic
      stop := (Setting.stop.last node container calls).getD entry.stop }
  | none => entry

/-! ## Which calls are refused -/

/-- A builder allows a call whose weight, if it gives one, is one, and whose container, if it wants
to revise one, is listed. -/
def Allows (builder : PlanBuilder) (call : Call) : Prop :=
  (∀ weight, call.givenWeight? = some weight → isWeight weight = true) ∧
    ∀ node container, call.target? = some (node, container) → builder.Lists node container

/-- Why a builder refuses a call. A weight is looked at before the container. -/
inductive Refuses (builder : PlanBuilder) (call : Call) : PlanError → Prop
  | weight {weight : Binary64} (hgiven : call.givenWeight? = some weight)
      (hweight : isWeight weight = false) : Refuses builder call (.invalidWeight weight)
  | container {node : NodeId} {container : ContainerId}
      (hweight : ∀ weight, call.givenWeight? = some weight → isWeight weight = true)
      (htarget : call.target? = some (node, container)) (hunlisted : ¬ builder.Lists node container) :
      Refuses builder call (.unknownContainer node container)

/-- A builder allows a call, or it has a reason to refuse it. -/
theorem allows_or_refuses (builder : PlanBuilder) (call : Call) :
    builder.Allows call ∨ ∃ error, builder.Refuses call error := by
  by_cases hweights : ∀ weight, call.givenWeight? = some weight → isWeight weight = true
  · by_cases hlisted : ∀ node container, call.target? = some (node, container) →
        builder.Lists node container
    · exact .inl ⟨hweights, hlisted⟩
    · push Not at hlisted
      obtain ⟨node, container, htarget, hunlisted⟩ := hlisted
      exact .inr ⟨_, .container hweights htarget hunlisted⟩
  · push Not at hweights
    obtain ⟨weight, hgiven, hweight⟩ := hweights
    exact .inr ⟨_, .weight hgiven (Bool.eq_false_iff.2 hweight)⟩

/-- A call that is allowed succeeds. -/
theorem Allows.exists_answer (hallows : builder.Allows call) :
    ∃ changed, builder.answer call = .ok changed := by
  obtain ⟨hweights, hlisted⟩ := hallows
  rcases builder.answer_cases call with ⟨weight, hgiven, hweight, -⟩ |
    ⟨node, service, weight, -, -, hpush⟩ | ⟨node, container, htarget, -, hchange⟩
  · rw [hweights weight hgiven] at hweight
    contradiction
  · exact ⟨_, hpush⟩
  · rw [hchange, PlanBuilder.change, if_pos (List.any_eq_true.2 (hlisted node container htarget))]
    exact ⟨_, rfl⟩

/-- A call that is refused is answered with the reason. -/
theorem Refuses.answer_eq {error : PlanError} (hrefuses : builder.Refuses call error) :
    builder.answer call = .error error := by
  cases hrefuses with
  | weight hgiven hweight => exact answer_of_not_isWeight hgiven hweight
  | container hweights htarget hunlisted =>
    rw [answer_of_target htarget hweights, PlanBuilder.change,
      if_neg (mt List.any_eq_true.1 hunlisted)]

/-- A call succeeds exactly when it is allowed. -/
theorem exists_answer_iff :
    (∃ changed, builder.answer call = .ok changed) ↔ builder.Allows call := by
  refine ⟨fun ⟨changed, hok⟩ => ?_, Allows.exists_answer⟩
  rcases builder.allows_or_refuses call with hallows | ⟨error, hrefuses⟩
  · exact hallows
  · rw [hrefuses.answer_eq] at hok
    contradiction

/-- A call is answered with an error exactly when the builder refuses it for that reason. -/
theorem answer_eq_error_iff {error : PlanError} :
    builder.answer call = .error error ↔ builder.Refuses call error := by
  refine ⟨fun herror => ?_, Refuses.answer_eq⟩
  rcases builder.allows_or_refuses call with hallows | ⟨another, hrefuses⟩
  · obtain ⟨changed, hok⟩ := hallows.exists_answer
    rw [hok] at herror
    contradiction
  · rw [hrefuses.answer_eq] at herror
    rwa [← Except.error.inj herror]

/-- Without the calls that are refused the builder comes out the same. -/
theorem drive_accepted (builder : PlanBuilder) (calls : List Call) :
    builder.drive (builder.accepted calls) = builder.drive calls := by
  induction calls generalizing builder with
  | nil => rfl
  | cons call later ih =>
    cases hanswer : builder.answer call with
    | error error =>
      have hkept : builder.perform call = builder := by rw [perform, hanswer]
      rw [accepted, hanswer, drive, drive, List.foldl_cons, hkept]
      exact ih builder
    | ok changed =>
      have hchanged : builder.perform call = changed := by rw [perform, hanswer]
      rw [accepted, hanswer, drive, drive, List.foldl_cons, List.foldl_cons, hchanged]
      exact ih changed

/-! ## What becomes of an entry -/

/-- An entry stays for its container. -/
theorem container_amend (node : NodeId) (call : Call) (entry : PlanEntry) :
    (call.amend node entry).container = entry.container := by
  rw [Call.amend]
  split <;> rfl

/-- One more call in front of some is taken first. -/
theorem settled_cons (node : NodeId) (call : Call) (later : List Call) (entry : PlanEntry) :
    settled node (call :: later) entry = settled node later (call.amend node entry) := by
  rw [settled, settled, container_amend, Call.amend]
  cases entry.container with
  | none => rfl
  | some container =>
    simp only [Setting.getD_last_cons]
    rfl

/-- An entry without a container is left alone. -/
theorem settled_of_none {entry : PlanEntry} (hnone : entry.container = none) (node : NodeId)
    (calls : List Call) : settled node calls entry = entry := by
  rw [settled, hnone]

/-- An entry that is added has no container. -/
theorem container_of_added? {entry : PlanEntry} (hadded : call.added? node = some entry) :
    entry.container = none := by
  cases call with
  | addService other service weight =>
    rw [Call.added?] at hadded
    split at hadded
    · rw [← Option.some.inj hadded]
      rfl
    · contradiction
  | _ => contradiction

/-- Among different containers no two entries are for the same one. -/
theorem pairwise_isFor {entries : List PlanEntry}
    (hunrepeated : Unrepeated (entries.filterMap assignment)) :
    entries.Pairwise fun one two =>
      ∀ container, one.isFor container = true → two.isFor container = false := by
  rw [Unrepeated, List.pairwise_filterMap] at hunrepeated
  apply hunrepeated.imp
  intro one two hdiffer container hone
  rw [Bool.eq_false_iff]
  intro htwo
  obtain ⟨first, hfirst, hfirstSame⟩ := exists_of_isFor hone
  obtain ⟨second, hsecond, hsecondSame⟩ := exists_of_isFor htwo
  have hfalse := hdiffer (first, one.service) (by rw [assignment, hfirst]; rfl)
    (second, two.service) (by rw [assignment, hsecond]; rfl)
  rw [BEq.trans hfirstSame (BEq.symm hsecondSame)] at hfalse
  contradiction

/-- Among different containers the first entry of one is the only one. -/
theorem changeFirst_eq_map {change : PlanEntry → PlanEntry} {entries : List PlanEntry}
    (hunrepeated : Unrepeated (entries.filterMap assignment)) :
    changeFirst target change entries =
      entries.map fun entry => if entry.isFor target then change entry else entry := by
  replace hunrepeated := pairwise_isFor hunrepeated
  induction entries with
  | nil => rfl
  | cons entry rest ih =>
    obtain ⟨hothers, hrest⟩ := List.pairwise_cons.1 hunrepeated
    rw [changeFirst, List.map_cons]
    split
    · rename_i hfor
      have hkept : (rest.map fun later => if later.isFor target then change later else later) =
          rest := by
        rw [List.map_congr_left (g := id), List.map_id]
        intro later hlater
        simp [hothers later hlater target hfor]
      rw [hkept]
    · rw [ih hrest]

/-- A call that is about a container adds no entry. -/
theorem added?_eq_none {target : NodeId × ContainerId} (htarget : call.target? = some target)
    (node : NodeId) : call.added? node = none := by
  cases call with
  | addService => contradiction
  | _ => rfl

/-- A call that succeeds amends the entries of a node and may add one at their end. -/
theorem containers_answer (hunrepeated : Unrepeated (builder.assigned node))
    (hanswer : builder.answer call = .ok changed) :
    changed.containers node =
      (builder.containers node).map (call.amend node) ++ (call.added? node).toList := by
  rcases cases_of_answer hanswer with ⟨other, service, weight, rfl, -, rfl⟩ |
    ⟨other, target, htarget, -, hchange⟩
  · have hamend : (Call.addService other service weight).amend node = id := by
      funext entry
      rw [Call.amend]
      split <;> rfl
    rw [containers_push, hamend, List.map_id, Call.added?]
    simp only [Ident.compare_eq_iff_beq]
    split <;> simp
  · have hamend (entry : PlanEntry) : call.amend node entry =
        if node == other && entry.isFor target then call.revise other target entry else entry := by
      rw [Call.amend, PlanEntry.isFor]
      cases entry.container with
      | none => simp
      | some container => exact Call.revise_eq_ite htarget node container entry
    rw [containers_change hchange, List.map_congr_left fun entry _ => hamend entry,
      added?_eq_none htarget, Option.toList_none, List.append_nil]
    cases node == other with
    | false => simp
    | true => exact changeFirst_eq_map hunrepeated

/-- After some calls the entries of a node are settled, and those that were added follow them. -/
theorem containers_drive (calls : List Call) (hunrepeated : Unrepeated (builder.assigned node)) :
    (builder.drive calls).containers node =
      (builder.containers node).map (settled node (builder.accepted calls)) ++
        (builder.accepted calls).filterMap (Call.added? node) := by
  induction calls generalizing builder with
  | nil =>
    have hsettled : settled node [] = id := by
      funext entry
      rw [settled]
      split <;> rfl
    simp [drive, accepted, hsettled]
  | cons call later ih =>
    rw [drive, List.foldl_cons, ← drive, perform, accepted]
    cases hanswer : builder.answer call with
    | error error => exact ih hunrepeated
    | ok changed =>
      have hkept : Unrepeated (changed.assigned node) := by
        rwa [(assigned_answer hanswer).2]
      have hadded : (call.added? node).toList.map (settled node (changed.accepted later)) =
          (call.added? node).toList := by
        cases hentry : call.added? node with
        | none => rfl
        | some entry => simp [settled_of_none (container_of_added? hentry)]
      have hsettled : settled node (call :: changed.accepted later) =
          settled node (changed.accepted later) ∘ call.amend node :=
        funext fun entry => settled_cons node call _ entry
      rw [ih hkept, containers_answer hunrepeated hanswer, List.map_append, List.map_map, hadded,
        hsettled, List.append_assoc, List.filterMap_cons]
      cases call.added? node <;> rfl

/-! ## Nodes without entries -/

/-- A builder that holds no node without entries. -/
def Filled (builder : PlanBuilder) : Prop :=
  ∀ node, builder.services.contains node = true → builder.containers node ≠ []

/-- Adding an entry leaves no node without entries. -/
theorem Filled.push (hfilled : builder.Filled) (other : NodeId) (entry : PlanEntry) :
    (builder.push other entry).Filled := by
  intro node hheld
  rw [containers_push]
  split
  · exact List.append_ne_nil_of_right_ne_nil _ (List.cons_ne_nil _ _)
  · rename_i hother
    apply hfilled
    rw [SortedMap.contains_eq_isSome] at hheld ⊢
    rwa [PlanBuilder.push, SortedMap.get?_upsert, if_neg hother] at hheld

/-- A changed list of entries is not empty where the list was not. -/
theorem changeFirst_ne_nil {change : PlanEntry → PlanEntry} {entries : List PlanEntry}
    (hentries : entries ≠ []) : changeFirst target change entries ≠ [] := by
  cases entries with
  | nil => contradiction
  | cons entry rest =>
    rw [changeFirst]
    split <;> exact List.cons_ne_nil _ _

/-- Changing an entry leaves no node without entries. -/
theorem Filled.change (hfilled : builder.Filled) {change : PlanEntry → PlanEntry}
    (hanswer : builder.change other target change = .ok changed) : changed.Filled := by
  intro node hheld
  have hbefore : builder.containers node ≠ [] := by
    apply hfilled
    rw [PlanBuilder.change] at hanswer
    split at hanswer
    · obtain rfl := Except.ok.inj hanswer
      rw [SortedMap.contains_eq_isSome] at hheld ⊢
      rw [SortedMap.get?_modify] at hheld
      split at hheld
      · rwa [Option.isSome_map] at hheld
      · exact hheld
    · contradiction
  rw [containers_change hanswer]
  split
  · exact changeFirst_ne_nil hbefore
  · exact hbefore

/-- A call that succeeds leaves no node without entries. -/
theorem Filled.answer (hfilled : builder.Filled) (hanswer : builder.answer call = .ok changed) :
    changed.Filled := by
  rcases cases_of_answer hanswer with ⟨other, service, weight, -, -, rfl⟩ |
    ⟨other, target, -, -, hchange⟩
  · exact hfilled.push other _
  · exact hfilled.change hchange

/-- A builder that was just made holds no node without entries. -/
theorem filled_origin (origin : Origin) : origin.builder.Filled := by
  have hempty (region : RegionId) : (empty region).Filled := nofun
  cases origin with
  | fresh region => exact hempty region
  | seeded previous live =>
    rw [Origin.builder, ofPlan]
    exact List.foldlRecOn _ _ (hempty live.region) fun _ hfilled placement _ =>
      hfilled.push placement.node _

/-! ## The last call on a setting -/

/-- A builder that was made for a region and then took some calls. The next call is refused exactly
for its weight or its container, and leaves no trace then. The entries that the builder was made with
stand first, in their old order, for the same containers and services, with what the last successful
calls on them said; behind them stands what the successful calls added, in their order. -/
theorem last_writer_wins (origin : Origin) (calls : List Call) :
    let made := origin.builder
    let builder := made.drive calls
    let accepted := made.accepted calls
    (∀ call,
      ((∃ changed, builder.answer call = .ok changed) ↔ builder.Allows call) ∧
      ∀ error, (builder.answer call = .error error ↔ builder.Refuses call error) ∧
        (builder.answer call = .error error → builder.perform call = builder)) ∧
    made.drive accepted = builder ∧
    builder.region = made.region ∧
    (∀ node, builder.services.contains node = true → builder.containers node ≠ []) ∧
    ∀ node, builder.containers node =
      (made.containers node).map (settled node accepted) ++
        accepted.filterMap (Call.added? node) := by
  refine ⟨fun call => ⟨exists_answer_iff, fun error => ⟨answer_eq_error_iff, fun herror => ?_⟩⟩,
    ?_, ?_, ?_, ?_⟩
  · rw [perform, herror]
  · exact origin.builder.drive_accepted calls
  · exact (origin.builder.assigned_drive calls).1
  · exact drive_keeps Filled.answer (filled_origin origin) calls
  · intro node
    exact containers_drive calls (unrepeated_origin origin node)

/-- A region in which one container of the service `video` runs. -/
def theater : LiveState :=
  (LiveState.empty ⟨"east"⟩).insert ⟨"n1"⟩ ⟨"c1"⟩ ⟨⟨"video"⟩, .running⟩

/-- The container gets two weights, and a third one that is not a number; another one, which is not
there, is to be stopped; and a container of a second service is asked for. -/
def rehearsal : List Call :=
  [.setWeight ⟨"n1"⟩ ⟨"c1"⟩ (.ofInt 3), .addService ⟨"N1"⟩ ⟨"audio"⟩ .one,
    .setStop ⟨"n2"⟩ ⟨"c1"⟩ true, .setWeight ⟨"N1"⟩ ⟨"C1"⟩ (.ofInt 2),
    .setWeight ⟨"n1"⟩ ⟨"c1"⟩ ⟨0x7ff8000000000000⟩]

/-- The second weight stays, the new container stands behind the old one, and a call for a node that
is not there leaves the builder as it is. -/
theorem rehearsal_settles :
    let builder := (Origin.seeded (.null ⟨"east"⟩ ⟨0, 0⟩) theater).builder.drive rehearsal
    builder.containers ⟨"N1"⟩ =
        [⟨some ⟨"c1"⟩, ⟨"video"⟩, .ofInt 2, false, false⟩, .toCreate ⟨"audio"⟩ .one] ∧
      builder.perform (.setStop ⟨"n2"⟩ ⟨"c1"⟩ true) = builder := by
  obtain ⟨hcalls, -, -, -, hcontainers⟩ :=
    last_writer_wins (.seeded (.null ⟨"east"⟩ ⟨0, 0⟩) theater) rehearsal
  exact ⟨(hcontainers ⟨"N1"⟩).trans rfl, ((hcalls (.setStop ⟨"n2"⟩ ⟨"c1"⟩ true)).2 _).2 rfl⟩

end RegionGossip.PlanBuilder
