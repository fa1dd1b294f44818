import RegionGossip.Plan.Round
import RegionGossip.Proofs.SortedMap.Update

/-!
# What one call does

A call gives a weight, is about a container on a node, or both. It is refused for its weight first
and for its container second. One that succeeds adds an entry without a container, or it revises the
entry that it is about. What every successful call keeps is kept by any sequence of calls.
-/

namespace RegionGossip.PlanBuilder

variable {builder changed : PlanBuilder} {call : Call} {node : NodeId} {container : ContainerId}
  {weight : Binary64}

/-- The weight that a call gives to a container. -/
def Call.givenWeight? : Call → Option Binary64
  | .addService _ _ weight => some weight
  | .setWeight _ _ weight => some weight
  | _ => none

/-- The container on a node that a call wants to revise. -/
def Call.target? : Call → Option (NodeId × ContainerId)
  | .addService .. => none
  | .setStopTraffic node container _ => some (node, container)
  | .setStop node container _ => some (node, container)
  | .setWeight node container _ => some (node, container)

/-- What a call makes of the entry of a container on a node. -/
def Call.revise (node : NodeId) (container : ContainerId) (call : Call) (entry : PlanEntry) :
    PlanEntry :=
  { entry with
    weight := (call.weight? node container).getD entry.weight
    stopTraffic := (call.stopTraffic? node container).getD entry.stopTraffic
    stop := (call.stop? node container).getD entry.stop }

/-- The weight that a call sets is the one that it gives. -/
theorem Call.givenWeight?_of_weight? (hset : call.weight? node container = some weight) :
    call.givenWeight? = some weight := by
  cases call with
  | setWeight other target given =>
    rw [Call.weight?] at hset
    split at hset
    · exact hset
    · contradiction
  | _ => contradiction

/-- A call revises the entry it is about, under every spelling, and no other one. -/
theorem Call.revise_eq_ite (htarget : call.target? = some (node, container)) (other : NodeId)
    (another : ContainerId) (entry : PlanEntry) :
    call.revise other another entry =
      if other == node && another == container then call.revise node container entry
      else entry := by
  cases call with
  | addService => contradiction
  | _ =>
    obtain ⟨rfl, rfl⟩ := Prod.mk.inj (Option.some.inj htarget)
    simp only [Call.revise, Call.weight?, Call.stopTraffic?, Call.stop?, BEq.rfl, Bool.and_self,
      if_true]
    split <;> rfl

/-- A weight that is none is what a call is refused for, whatever else it wants. -/
theorem answer_of_not_isWeight (hgiven : call.givenWeight? = some weight)
    (hweight : isWeight weight = false) :
    builder.answer call = .error (.invalidWeight weight) := by
  cases call with
  | addService node service given =>
    obtain rfl := Option.some.inj hgiven
    exact if_neg (Bool.eq_false_iff.1 hweight)
  | setWeight node container given =>
    obtain rfl := Option.some.inj hgiven
    exact if_neg (Bool.eq_false_iff.1 hweight)
  | _ => contradiction

/-- A call that is about a container changes the entry of this container to what it makes of it. -/
theorem answer_of_target (htarget : call.target? = some (node, container))
    (hweights : ∀ weight, call.givenWeight? = some weight → isWeight weight = true) :
    builder.answer call = builder.change node container (call.revise node container) := by
  cases call with
  | addService => contradiction
  | setStopTraffic =>
    obtain ⟨rfl, rfl⟩ := Prod.mk.inj (Option.some.inj htarget)
    rw [answer, setStopTraffic]
    congr 1
    funext entry
    simp [Call.revise, Call.weight?, Call.stopTraffic?, Call.stop?]
  | setStop =>
    obtain ⟨rfl, rfl⟩ := Prod.mk.inj (Option.some.inj htarget)
    rw [answer, setStop]
    congr 1
    funext entry
    simp [Call.revise, Call.weight?, Call.stopTraffic?, Call.stop?]
  | setWeight _ _ weight =>
    obtain ⟨rfl, rfl⟩ := Prod.mk.inj (Option.some.inj htarget)
    rw [answer, setWeight, if_pos (hweights weight rfl)]
    congr 1
    funext entry
    simp [Call.revise, Call.weight?, Call.stopTraffic?, Call.stop?]

/-- A call is refused for its weight, adds an entry, or revises the entry it is about. -/
theorem answer_cases (builder : PlanBuilder) (call : Call) :
    (∃ weight, call.givenWeight? = some weight ∧ isWeight weight = false ∧
      builder.answer call = .error (.invalidWeight weight)) ∨
    (∃ node service weight, call = .addService node service weight ∧ isWeight weight = true ∧
      builder.answer call = .ok (builder.push node (.toCreate service weight))) ∨
    ∃ node container, call.target? = some (node, container) ∧
      (∀ weight, call.givenWeight? = some weight → isWeight weight = true) ∧
      builder.answer call = builder.change node container (call.revise node container) := by
  by_cases hweights : ∀ weight, call.givenWeight? = some weight → isWeight weight = true
  · refine .inr ?_
    cases htarget : call.target? with
    | some target => exact .inr ⟨_, _, rfl, hweights, answer_of_target htarget hweights⟩
    | none =>
      cases call with
      | addService node service weight =>
        exact .inl ⟨_, _, _, rfl, hweights weight rfl, if_pos (hweights weight rfl)⟩
      | _ => contradiction
  · push Not at hweights
    obtain ⟨weight, hgiven, hweight⟩ := hweights
    have hfalse := Bool.eq_false_iff.2 hweight
    exact .inl ⟨weight, hgiven, hfalse, answer_of_not_isWeight hgiven hfalse⟩

/-- A call that succeeds adds an entry or revises the entry it is about. -/
theorem cases_of_answer (hanswer : builder.answer call = .ok changed) :
    (∃ node service weight, call = .addService node service weight ∧ isWeight weight = true ∧
      changed = builder.push node (.toCreate service weight)) ∨
    ∃ node container, call.target? = some (node, container) ∧
      (∀ weight, call.givenWeight? = some weight → isWeight weight = true) ∧
      builder.change node container (call.revise node container) = .ok changed := by
  rcases builder.answer_cases call with ⟨_, -, -, herror⟩ |
    ⟨node, service, weight, hcall, hweight, hpush⟩ | ⟨node, container, htarget, hweights, hchange⟩
  · rw [hanswer] at herror
    contradiction
  · exact .inl ⟨node, service, weight, hcall, hweight, Except.ok.inj (hanswer.symm.trans hpush)⟩
  · exact .inr ⟨node, container, htarget, hweights, hchange.symm.trans hanswer⟩

/-- What every call that succeeds keeps, any calls keep. -/
theorem drive_keeps {motive : PlanBuilder → Prop}
    (hanswer : ∀ {builder changed call}, motive builder → builder.answer call = .ok changed →
      motive changed)
    (hbuilder : motive builder) (calls : List Call) : motive (builder.drive calls) := by
  induction calls generalizing builder with
  | nil => exact hbuilder
  | cons call later ih =>
    apply ih
    rw [perform]
    cases hcall : builder.answer call with
    | ok changed => exact hanswer hbuilder hcall
    | error error => exact hbuilder

end RegionGossip.PlanBuilder
