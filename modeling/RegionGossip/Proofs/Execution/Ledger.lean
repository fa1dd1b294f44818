import RegionGossip.Execution.Operated

/-!
# The ledger of an executing node

The log of a node is a ledger if each entry can be made in the account that the entries before it
have led to. So whatever holds of an entry and the one directly before it is read off the rules by
which the two were made.
-/

namespace RegionGossip

/-- What an account waits for. -/
inductive AccountStage
  /-- For the first hook, or for a start. -/
  | quiet
  /-- For a round, after the first hook has returned. -/
  | begun
  /-- For the second hook, after a round has returned a result. -/
  | returned (output : RoundOutput)
  /-- For the broadcast of a payload, after the second hook has returned. -/
  | due (outbound : Payload)
  /-- For a start, after a fault. -/
  | failed (fault : ExecutionFault)

/-- What the calls of a node and its starts have led to. -/
structure Account where
  /-- The number of rounds that returned a result. -/
  count : Nat
  /-- The value of the last of them. -/
  value : Value
  stage : AccountStage

namespace Account

/-- The account of a node that has not executed yet. -/
def blank : Account := ⟨0, .null, .quiet⟩

/-- An entry that an account allows, and the account after it. -/
inductive Enters : Account → ExecutionMark → Account → Prop
  | started {count value} : Enters ⟨count, value, .quiet⟩ .started ⟨count, value, .quiet⟩
  | restarted {count value fault} :
    Enters ⟨count, value, .failed fault⟩ .started ⟨count, value, .quiet⟩
  | before {count value} :
    Enters ⟨count, value, .quiet⟩ (.before count (.returned ())) ⟨count, value, .begun⟩
  | beforePanicked {count value} :
    Enters ⟨count, value, .quiet⟩ (.before count .panicked) ⟨count, value, .failed .loopPanicked⟩
  | round {count value neighbors output} :
    Enters ⟨count, value, .begun⟩ (.round count neighbors (.returned (.ok output)))
      ⟨count + 1, output.localValue, .returned output⟩
  | roundFailed {count value neighbors error} :
    Enters ⟨count, value, .begun⟩ (.round count neighbors (.returned (.error error)))
      ⟨count, value, .failed (.failed error)⟩
  | roundPanicked {count value neighbors} :
    Enters ⟨count, value, .begun⟩ (.round count neighbors .panicked)
      ⟨count, value, .failed .roundPanicked⟩
  | after {count value output} :
    Enters ⟨count, value, .returned output⟩ (.after count value (.returned ()))
      ⟨count, value, .due output.outbound⟩
  | afterPanicked {count value output} :
    Enters ⟨count, value, .returned output⟩ (.after count value .panicked)
      ⟨count, value, .failed .loopPanicked⟩
  | broadcast {count value outbound} :
    Enters ⟨count, value, .due outbound⟩ (.broadcast outbound) ⟨count, value, .quiet⟩

/-- The payload that is still to be broadcast. -/
def pending (account : Account) : List Payload :=
  match account.stage with
  | .due outbound => [outbound]
  | _ => []

end Account

/-- A log whose entries were allowed one after the other, with the account that they led to. -/
inductive Ledger : List ExecutionMark → Account → Prop
  | blank : Ledger [] .blank
  | enter {log account mark next} : Ledger log account → account.Enters mark next →
    Ledger (mark :: log) next

/-- A call that failed or panicked returned no result, and broadcast nothing. -/
theorem ExecutionMark.nothing_of_fault {mark : ExecutionMark} {fault : ExecutionFault}
    (hfault : mark.fault? = some fault) :
    mark.output? = none ∧ mark.payload? = none := by
  cases mark with
  | round round neighbors outcome =>
    refine ⟨?_, rfl⟩
    rcases outcome with (error | output) | _
    · rfl
    · contradiction
    · rfl
  | broadcast payload => contradiction
  | _ => exact ⟨rfl, rfl⟩

namespace Ledger

open ExecutionMark

variable {log later earlier : List ExecutionMark} {account : Account} {mark : ExecutionMark}

/-- The count of a ledger is the number of results. -/
theorem count_eq (hledger : Ledger log account) : account.count = (outputs log).length := by
  induction hledger with
  | blank => rfl
  | enter hlog henters ih =>
    cases henters with
    | round => exact congrArg (· + 1) ih
    | _ => exact ih

/-- The value of a ledger is that of the last result. -/
theorem value_eq (hledger : Ledger log account) :
    account.value = ((outputs log).head?.map RoundOutput.localValue).getD .null := by
  induction hledger with
  | blank => rfl
  | enter hlog henters ih =>
    cases henters with
    | round => rfl
    | _ => exact ih

/-- What a ledger begins with is a ledger. -/
theorem suffix (hledger : Ledger (later ++ log) account) : ∃ account, Ledger log account := by
  induction later generalizing account with
  | nil => exact ⟨_, hledger⟩
  | cons mark later ih =>
    cases hledger with
    | enter hlog henters => exact ih hlog

/-- The number that a round is given is that of the results before it. -/
theorem round_eq {round : Nat} {neighbors : SortedMap NodeId Payload}
    {outcome : Outcome (Except MeshError RoundOutput)}
    (hledger : Ledger (.round round neighbors outcome :: earlier) account) :
    round = (outputs earlier).length := by
  cases hledger with
  | enter hlog henters => cases henters <;> exact hlog.count_eq

/-- After a round that returned a result, a ledger waits for the second hook. -/
theorem stage_of_output {output : RoundOutput} (houtput : mark.output? = some output)
    (hledger : Ledger (mark :: earlier) account) : account.stage = .returned output := by
  cases hledger with
  | enter hlog henters =>
    cases henters with
    | round => exact congrArg AccountStage.returned (Option.some.inj houtput)
    | _ => contradiction

/-- After a fault, a ledger waits for a start. -/
theorem stage_of_fault {fault : ExecutionFault} (hfault : mark.fault? = some fault)
    (hledger : Ledger (mark :: earlier) account) : account.stage = .failed fault := by
  cases hledger with
  | enter hlog henters =>
    cases henters <;>
      first | contradiction | exact congrArg AccountStage.failed (Option.some.inj hfault)

/-- A ledger that waits for the second hook ends with the round that returned the result. -/
theorem exists_round {output : RoundOutput} (hledger : Ledger log account)
    (hstage : account.stage = .returned output) :
    ∃ round neighbors earlier, log = .round round neighbors (.returned (.ok output)) :: earlier ∧
      account.count = round + 1 ∧ account.value = output.localValue := by
  cases hledger with
  | blank => contradiction
  | enter hlog henters =>
    cases henters with
    | round =>
      obtain rfl := AccountStage.returned.inj hstage
      exact ⟨_, _, _, rfl, rfl, rfl⟩
    | _ => contradiction

/-- Directly after a round that returned a result comes the second hook, with the new count. -/
theorem exists_after {next : ExecutionMark} {round : Nat}
    {neighbors : SortedMap NodeId Payload} {output : RoundOutput}
    (hledger : Ledger (next :: .round round neighbors (.returned (.ok output)) :: earlier)
      account) :
    ∃ outcome, next = .after (round + 1) output.localValue outcome := by
  cases hledger with
  | enter hlog henters =>
    cases hlog with
    | enter hearlier hround =>
      cases hround
      cases henters <;> exact ⟨_, rfl⟩

/-- Directly before the second hook comes a round that returned a result. -/
theorem exists_round_of_after {count : Nat} {value : Value} {outcome : Outcome Unit}
    (hledger : Ledger (.after count value outcome :: log) account) :
    ∃ round neighbors output earlier,
      log = .round round neighbors (.returned (.ok output)) :: earlier ∧
        count = round + 1 ∧ value = output.localValue := by
  cases hledger with
  | enter hlog henters =>
    cases henters <;>
    · obtain ⟨round, neighbors, earlier, rfl, hcount, hvalue⟩ := hlog.exists_round rfl
      exact ⟨round, neighbors, _, earlier, rfl, hcount, hvalue⟩

/-- Directly after a fault comes a start. -/
theorem eq_started {next : ExecutionMark} {fault : ExecutionFault}
    (hfault : mark.fault? = some fault) (hledger : Ledger (next :: mark :: earlier) account) :
    next = .started := by
  cases hledger with
  | enter hlog henters =>
    have hstage := hlog.stage_of_fault hfault
    cases henters <;> first | rfl | contradiction

/-- All payloads of rounds after which the second hook returned have been broadcast, in order, up to
the one that is still to be. -/
theorem due_eq (hledger : Ledger log account) : due log = account.pending ++ published log := by
  induction hledger with
  | blank => rfl
  | enter hlog henters ih =>
    cases henters with
    | after =>
      obtain ⟨round, neighbors, earlier, rfl, -⟩ := hlog.exists_round rfl
      exact congrArg (_ :: ·) ih
    | broadcast => exact ih
    | afterPanicked =>
      obtain ⟨round, neighbors, earlier, rfl, -⟩ := hlog.exists_round rfl
      exact ih
    | _ => exact ih

end Ledger

end RegionGossip
