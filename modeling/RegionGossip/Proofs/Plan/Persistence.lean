import RegionGossip.Binary64.Round
import RegionGossip.Proofs.Plan.Entries
import RegionGossip.Proofs.Plan.Freezing

/-!
# Settings persist over planning rounds

A round carries the settings of each container that is still active from the last plan into the next
one and revises them by the calls that succeed. So in any plan a container has what the last
successful call since it became active made of each of its settings, or the initial value if there
was none. A container that is not active in a round is not in its plan, and starts anew when it
becomes active again. Nothing depends on the rounds being for the same region.
-/

namespace RegionGossip

namespace PlanBuilder

variable {builder : PlanBuilder}

/-- All weights of a builder are finite and not below zero. -/
def Weighted (builder : PlanBuilder) : Prop :=
  ∀ node, ∀ entry ∈ builder.containers node, isWeight entry.weight = true

/-- An entry of a list after a change is an entry from before, or a changed one. -/
theorem mem_changeFirst {container : ContainerId} {change : PlanEntry → PlanEntry}
    {entries : List PlanEntry} {entry : PlanEntry}
    (hentry : entry ∈ changeFirst container change entries) :
    entry ∈ entries ∨ ∃ old ∈ entries, change old = entry := by
  induction entries with
  | nil => exact absurd hentry List.not_mem_nil
  | cons head rest ih =>
    rw [changeFirst] at hentry
    split at hentry
    · rcases List.mem_cons.1 hentry with rfl | hrest
      · exact .inr ⟨head, List.mem_cons_self, rfl⟩
      · exact .inl (List.mem_cons_of_mem _ hrest)
    · rcases List.mem_cons.1 hentry with rfl | hrest
      · exact .inl List.mem_cons_self
      · rcases ih hrest with hold | ⟨old, hold, rfl⟩
        · exact .inl (List.mem_cons_of_mem _ hold)
        · exact .inr ⟨old, List.mem_cons_of_mem _ hold, rfl⟩

/-- A builder is weighted after an entry with a weight is added. -/
theorem Weighted.push (hweighted : builder.Weighted) (node : NodeId) {entry : PlanEntry}
    (hweight : isWeight entry.weight = true) : (builder.push node entry).Weighted := by
  intro other found hfound
  rw [containers_push] at hfound
  split at hfound
  · rcases List.mem_append.1 hfound with hold | hnew
    · exact hweighted other found hold
    · rwa [List.mem_singleton.1 hnew]
  · exact hweighted other found hfound

/-- A builder is weighted after a change that makes weights of weights. -/
theorem Weighted.change {changed : PlanBuilder} {node : NodeId} {container : ContainerId}
    {change : PlanEntry → PlanEntry} (hweighted : builder.Weighted)
    (hanswer : builder.change node container change = .ok changed)
    (hchange : ∀ entry, isWeight entry.weight = true → isWeight (change entry).weight = true) :
    changed.Weighted := by
  intro other found hfound
  rw [containers_change hanswer] at hfound
  split at hfound
  · rcases mem_changeFirst hfound with hold | ⟨old, hold, rfl⟩
    · exact hweighted other found hold
    · exact hchange old (hweighted other old hold)
  · exact hweighted other found hfound

/-- A call that succeeds leaves a builder weighted. -/
theorem Weighted.answer {changed : PlanBuilder} {call : Call} (hweighted : builder.Weighted)
    (hanswer : builder.answer call = .ok changed) : changed.Weighted := by
  rcases cases_of_answer hanswer with ⟨node, service, weight, -, hweight, rfl⟩ |
    ⟨node, container, -, hweights, hchange⟩
  · exact hweighted.push node hweight
  · refine hweighted.change hchange fun entry hentry => ?_
    show isWeight ((call.weight? node container).getD entry.weight) = true
    cases hset : call.weight? node container with
    | none => exact hentry
    | some weight => exact hweights weight (Call.givenWeight?_of_weight? hset)

/-- Calls leave a builder weighted, whether they succeed or not. -/
theorem Weighted.drive (hweighted : builder.Weighted) (calls : List Call) :
    (builder.drive calls).Weighted := drive_keeps Weighted.answer hweighted calls

/-- A builder that is seeded from a plan with weights is weighted. -/
theorem weighted_ofPlan {previous : Plan}
    (hweighted : ∀ node, ∀ entry ∈ previous.containers node, isWeight entry.weight = true)
    (live : LiveState) : (ofPlan previous live).Weighted := by
  intro node entry hentry
  rw [containers_ofPlan] at hentry
  obtain ⟨placement, -, rfl⟩ := List.mem_map.1 hentry
  rw [carryOver]
  split
  · rename_i held hheld
    exact hweighted _ held (List.mem_of_find?_eq_some hheld)
  · show isWeight Binary64.one = true
    decide

end PlanBuilder

open PlanBuilder

/-- All weights of a plan are finite and not below zero, and no node has a container twice. -/
structure Plan.Orderly (plan : Plan) : Prop where
  weighted : ∀ node, ∀ entry ∈ plan.containers node, isWeight entry.weight = true
  unrepeated : ∀ node, Unrepeated ((plan.containers node).filterMap assignment)

namespace PlanRound

variable {round : PlanRound} {last plan : Plan} {node : NodeId} {container : ContainerId}

/-- Every round has a plan, with the entries of its builder. -/
theorem exists_freeze (round : PlanRound) (last : Plan) :
    ∃ plan, round.freeze last = .ok plan ∧
      plan.services = ((round.seeded last).drive round.calls).services :=
  ⟨_, freeze_eq_ok (fault?_drive_ofPlan last round.live round.calls), rfl⟩

/-- The plan of a round has the entries of its builder. -/
theorem containers_freeze (hfreeze : round.freeze last = .ok plan) (node : NodeId) :
    plan.containers node = ((round.seeded last).drive round.calls).containers node := by
  obtain ⟨frozen, hfrozen, hservices⟩ := round.exists_freeze last
  obtain rfl : plan = frozen := Except.ok.inj (hfreeze.symm.trans hfrozen)
  rw [Plan.containers, hservices]
  rfl

/-- The plan of a round is orderly if the last one was. -/
theorem orderly_freeze (horderly : last.Orderly) (hfreeze : round.freeze last = .ok plan) :
    plan.Orderly := by
  refine ⟨fun node => ?_, fun node => ?_⟩
  · rw [containers_freeze hfreeze]
    exact (weighted_ofPlan horderly.weighted round.live).drive round.calls node
  · rw [containers_freeze hfreeze]
    exact unrepeated_drive (.seeded last round.live) round.calls node

/-- The entry of a container in the plan of a round is that of the builder as it was made, revised
by the calls that succeeded. -/
theorem entryFor?_freeze (hfreeze : round.freeze last = .ok plan) :
    plan.entryFor? node container = ((round.seeded last).entryFor? node container).map fun entry =>
      (round.accepted last).foldl (fun entry call => call.revise node container entry) entry := by
  rw [Plan.entryFor?, containers_freeze hfreeze]
  exact entryFor?_drive round.calls (round.seeded last)

/-- A container that is not active in a round is not in its plan. -/
theorem entryFor?_eq_none (hfreeze : round.freeze last = .ok plan)
    (hinactive : round.live.isActive node container = false) :
    plan.entryFor? node container = none := by
  rw [entryFor?_freeze hfreeze, seeded, entryFor?_ofPlan_of_inactive hinactive]
  rfl

/-- A container that is active in a round is in its plan, and each of its settings is what the last
successful call of the round on it said, or what it was in the last plan. -/
theorem exists_entryFor? (hfreeze : round.freeze last = .ok plan)
    (hactive : round.live.isActive node container = true) :
    ∃ entry, plan.entryFor? node container = some entry ∧
      ∀ {α : Type} (setting : Setting α), setting.read entry =
        (setting.last node container (round.accepted last)).getD
          (setting.inPlan last node container) := by
  obtain ⟨placement, hnode, hcontainer, hseeded⟩ := exists_entryFor?_ofPlan last hactive
  rw [entryFor?_freeze hfreeze, seeded, hseeded]
  refine ⟨_, rfl, fun setting => ?_⟩
  rw [setting.read_foldl_revise, setting.read_carryOver hnode hcontainer]

end PlanRound

namespace Plan

variable {last before plan : Plan} {node : NodeId} {container : ContainerId}

/-- Every row of rounds leads to a plan, and to an orderly one from an orderly one. -/
theorem exists_after (horderly : last.Orderly) (rounds : List PlanRound) :
    ∃ plan, last.after rounds = .ok plan ∧ plan.Orderly := by
  induction rounds generalizing last with
  | nil => exact ⟨last, rfl, horderly⟩
  | cons round later ih =>
    obtain ⟨plan, hfreeze, -⟩ := round.exists_freeze last
    rw [after, hfreeze]
    exact ih (PlanRound.orderly_freeze horderly hfreeze)

/-- A plan without entries is orderly. -/
theorem orderly_null (region : RegionId) (timestamp : Timestamp) : (null region timestamp).Orderly :=
  ⟨fun _ _ hentry => absurd hentry List.not_mem_nil, fun _ => List.Pairwise.nil⟩

/-- The last one of some rounds freezes the plan. -/
theorem after_concat (last : Plan) (rounds : List PlanRound) (round : PlanRound) :
    last.after (rounds ++ [round]) = (last.after rounds).bind round.freeze := by
  induction rounds generalizing last with
  | nil =>
    show (round.freeze last).bind Except.ok = round.freeze last
    cases round.freeze last <;> rfl
  | cons first later ih =>
    rw [List.cons_append, after, after]
    cases first.freeze last with
    | error error => rfl
    | ok plan => exact ih plan

/-- After some rounds the plan is that of the last one of them. -/
theorem eq_nil_or_freeze {rounds : List PlanRound} (hafter : last.after rounds = .ok plan) :
    (rounds = [] ∧ plan = last) ∨
      ∃ round ∈ rounds.getLast?, ∃ previous, round.freeze previous = .ok plan := by
  rcases rounds.eq_nil_or_concat with rfl | ⟨front, round, rfl⟩
  · exact .inl ⟨rfl, (Except.ok.inj hafter).symm⟩
  · rw [List.concat_eq_append, after_concat] at hafter
    cases hfront : last.after front with
    | error error => simp [hfront, Except.bind] at hafter
    | ok previous =>
      rw [hfront] at hafter
      exact .inr ⟨round, by simp, previous, hafter⟩

/-- While a container stays active, each of its settings is what the last successful call on it said,
or what it was before. -/
theorem inPlan_after {α : Type} (setting : Setting α) {rounds : List PlanRound}
    (hactive : ∀ round ∈ rounds, round.live.isActive node container = true)
    (hafter : last.after rounds = .ok plan) :
    setting.inPlan plan node container =
      (setting.last node container (last.accepted rounds)).getD
        (setting.inPlan last node container) := by
  induction rounds generalizing last with
  | nil =>
    obtain rfl := Except.ok.inj hafter
    rfl
  | cons round later ih =>
    obtain ⟨hfirst, hlater⟩ := List.forall_mem_cons.1 hactive
    obtain ⟨next, hfreeze, -⟩ := round.exists_freeze last
    obtain ⟨entry, hentry, hread⟩ := PlanRound.exists_entryFor? hfreeze hfirst
    have hnext : setting.inPlan next node container = setting.read entry := by
      rw [Setting.inPlan, hentry]
      rfl
    rw [after, hfreeze] at hafter
    rw [ih hlater hafter, hnext, hread, accepted, hfreeze, Setting.last, Setting.last, Setting.last,
      List.reverse_append, List.findSome?_append]
    cases (next.accepted later).reverse.findSome? (setting.made node container) <;> rfl

/-- The entry of a container is one of those of its node. -/
theorem mem_of_entryFor? {entry : PlanEntry} (hentry : plan.entryFor? node container = some entry) :
    entry ∈ plan.containers node ∧ entry.isFor container = true :=
  ⟨List.mem_of_find?_eq_some hentry, by simpa using List.find?_some hentry⟩

/-- A run of planning rounds, however long and with whatever calls in it, leads to a plan in which
all weights are finite and not below zero and no node has a container twice. If a container was not
active, or there was no round yet, and was then active on the same node in every round since, the
plan has an entry for it, with the weight and the flags of the last successful calls since then:
weight one and cleared flags if there were none. As long as it is not active it has no entry. -/
theorem settings_persist (region : RegionId) (timestamp : Timestamp)
    (earlier since : List PlanRound) :
    ∃ before plan, (null region timestamp).after earlier = .ok before ∧
      before.after since = .ok plan ∧
      (∀ node, ∀ entry ∈ plan.containers node,
        entry.weight.isFinite = true ∧ Binary64.zero.atMost entry.weight = true) ∧
      (∀ node, ((plan.containers node).filterMap PlanEntry.container).Pairwise
        fun one two => (one == two) = false) ∧
      ∀ node container,
        (∀ round ∈ earlier.getLast?, round.live.isActive node container = false) →
        (∀ round ∈ since, round.live.isActive node container = true) →
        (since = [] → ∀ entry ∈ plan.containers node, entry.isFor container = false) ∧
        (since ≠ [] → ∃ entry ∈ plan.containers node, entry.isFor container = true ∧
          entry.weight =
            ((before.accepted since).reverse.findSome? (Call.weight? node container)).getD .one ∧
          entry.stopTraffic =
            ((before.accepted since).reverse.findSome?
              (Call.stopTraffic? node container)).getD false ∧
          entry.stop =
            ((before.accepted since).reverse.findSome? (Call.stop? node container)).getD false) := by
  obtain ⟨before, hbefore, horderly⟩ := exists_after (orderly_null region timestamp) earlier
  obtain ⟨plan, hplan, hplanOrderly⟩ := exists_after horderly since
  refine ⟨before, plan, hbefore, hplan, fun node entry hentry => ?_, fun node => ?_,
    fun node container hinactive hactive => ?_⟩
  · simpa [isWeight] using hplanOrderly.weighted node entry hentry
  · rw [filterMap_container, List.pairwise_map]
    exact hplanOrderly.unrepeated node
  · -- when the container became active, no plan had an entry for it
    have habsent : before.entryFor? node container = none := by
      rcases eq_nil_or_freeze hbefore with ⟨-, rfl⟩ | ⟨round, hround, previous, hfreeze⟩
      · rfl
      · exact PlanRound.entryFor?_eq_none hfreeze (hinactive round hround)
    constructor
    · rintro rfl entry hentry
      obtain rfl := Except.ok.inj hplan
      simpa using List.find?_eq_none.1 habsent entry hentry
    · intro hsince
      rcases eq_nil_or_freeze hplan with ⟨hnil, -⟩ | ⟨round, hround, previous, hfreeze⟩
      · exact absurd hnil hsince
      · obtain ⟨entry, hentry, -⟩ := PlanRound.exists_entryFor? hfreeze
          (hactive round (List.mem_of_getLast? hround))
        have hread {α : Type} (setting : Setting α) : setting.read entry =
            (setting.last node container (before.accepted since)).getD setting.initial := by
          have hsettled := inPlan_after setting hactive hplan
          rw [Setting.inPlan, Setting.inPlan, hentry, habsent] at hsettled
          exact hsettled
        obtain ⟨hmem, hfor⟩ := mem_of_entryFor? hentry
        exact ⟨entry, hmem, hfor, hread .weight, hread .stopTraffic, hread .stop⟩

/-- A region in which one container of the service `video` runs, or is being stopped. -/
def studio (container : String) (status : Status) : LiveState :=
  (LiveState.empty ⟨"east"⟩).insert ⟨"n1"⟩ ⟨container⟩ ⟨⟨"video"⟩, status⟩

/-- The container has weight three and is stopped. -/
def closing : List PlanRound :=
  [⟨studio "c1" .running, [.setWeight ⟨"n1"⟩ ⟨"c1"⟩ (.ofInt 3)], ∅, ⟨1, 0⟩⟩,
    ⟨studio "c1" .stopping, [.setStop ⟨"n1"⟩ ⟨"c1"⟩ true], ∅, ⟨2, 0⟩⟩]

/-- The container is back under another spelling. Of the weights it is given one is not a number. -/
def reopening : List PlanRound :=
  [⟨studio "C1" .starting,
      [.setStopTraffic ⟨"N1"⟩ ⟨"c1"⟩ true, .setWeight ⟨"n1"⟩ ⟨"c1"⟩ (.ofInt 2)], ∅, ⟨3, 0⟩⟩,
    ⟨studio "c1" .running,
      [.setWeight ⟨"n1"⟩ ⟨"C1"⟩ ⟨0x7ff8000000000000⟩, .addService ⟨"n1"⟩ ⟨"video"⟩ .one], ∅, ⟨4, 0⟩⟩]

/-- After the container is back it has the last weight that was a number, its traffic stays stopped,
and nothing is left of what was asked of it before. -/
theorem reopening_keeps_settings : ∃ before plan,
    (null ⟨"east"⟩ ⟨0, 0⟩).after closing = .ok before ∧ before.after reopening = .ok plan ∧
      ∃ entry ∈ plan.containers ⟨"n1"⟩, entry.isFor ⟨"c1"⟩ = true ∧
        entry.weight = .ofInt 2 ∧ entry.stopTraffic = true ∧ entry.stop = false := by
  obtain ⟨before, plan, hbefore, hplan, -, -, hsettings⟩ :=
    settings_persist ⟨"east"⟩ ⟨0, 0⟩ closing reopening
  obtain ⟨first, hfirst, haccepted⟩ : ∃ first, (null ⟨"east"⟩ ⟨0, 0⟩).after closing = .ok first ∧
      first.accepted reopening =
        [.setStopTraffic ⟨"N1"⟩ ⟨"c1"⟩ true, .setWeight ⟨"n1"⟩ ⟨"c1"⟩ (.ofInt 2),
          .addService ⟨"n1"⟩ ⟨"video"⟩ .one] := ⟨_, rfl, rfl⟩
  obtain rfl := Except.ok.inj (hbefore.symm.trans hfirst)
  obtain ⟨-, hlast⟩ := hsettings ⟨"n1"⟩ ⟨"c1"⟩ (by decide +kernel) (by decide +kernel)
  obtain ⟨entry, hmem, hfor, hweight, hstopTraffic, hstop⟩ := hlast (List.cons_ne_nil _ _)
  rw [haccepted] at hweight hstopTraffic hstop
  exact ⟨before, plan, hbefore, hplan, entry, hmem, hfor, hweight, hstopTraffic, hstop⟩

end Plan

end RegionGossip
