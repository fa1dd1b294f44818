import RegionGossip.Execution.Basic

/-!
# Execution in virtual time

Nothing takes time but sleeping: a loop that was started runs its first cycle at once, and each
later one when the interval has passed. Every event is kept together with the time since somebody
last asked for a start.
-/

namespace RegionGossip

/-- A node that executes without neighbours in virtual time, in milliseconds. -/
structure TimedRuntime (σ : Type) where
  runtime : Runtime σ
  program : Program σ
  interval : Nat
  now : Nat
  /-- When a start was last asked for. -/
  asked : Nat
  /-- When the loop is due for its next cycle. -/
  due : Nat
  /-- What was done, with its time, the latest first. -/
  log : List (Nat × ExecutionEvent)

/-- What can be asked of a node in virtual time. -/
inductive TimedStep
  | start
  /-- Wait until a count of rounds is reached or the node does not run any more. -/
  | runUntil (count : Nat)
  | stop
  | wait (milliseconds : Nat)

namespace TimedRuntime

variable {σ : Type}

/-- A node that has not executed yet, at time zero. -/
def idle (node : NodeId) (inner : σ) (program : Program σ) (interval : Nat) : TimedRuntime σ :=
  ⟨Runtime.idle node inner, program, interval, 0, 0, 0, []⟩

/-- The events of a new state are entered in the log. -/
def enter (timed : TimedRuntime σ) (runtime : Runtime σ) : TimedRuntime σ :=
  { timed with
    runtime := { runtime with events := [] }
    log := runtime.events.map (timed.now - timed.asked, ·) ++ timed.log }

/-- One cycle at the time it is due. -/
def runCycle (timed : TimedRuntime σ) (loop : Nat) : TimedRuntime σ :=
  let atDue := { timed with now := max timed.now timed.due }
  let done := atDue.enter (atDue.runtime.cycle timed.program ∅ loop)
  { done with due := done.now + timed.interval }

/-- Cycles until the count of rounds is reached or the node does not run any more. -/
def runUntil (count : Nat) : (fuel : Nat) → TimedRuntime σ → TimedRuntime σ
  | 0, timed => timed
  | fuel + 1, timed =>
    if count ≤ timed.runtime.executions || timed.runtime.state != .running then timed
    else match timed.runtime.stored with
      | some loop => runUntil count fuel (timed.runCycle loop)
      | none => timed

/-- All cycles that are due up to a time. -/
def runTo (time : Nat) : (fuel : Nat) → TimedRuntime σ → TimedRuntime σ
  | 0, timed => { timed with now := time }
  | fuel + 1, timed =>
    if timed.runtime.state = .running ∧ timed.due ≤ time then
      match timed.runtime.stored with
      | some loop => runTo time fuel (timed.runCycle loop)
      | none => { timed with now := time }
    else { timed with now := time }

/-- One step. A loop that is started is due at once; of a loop that is stopped, a cycle that was due
but not begun is not run. -/
def apply (timed : TimedRuntime σ) : TimedStep → Except MeshError Unit × TimedRuntime σ
  | .start =>
    let asked := { timed with asked := timed.now }
    match timed.runtime.start with
    | .ok runtime => (.ok (), { asked with runtime, due := timed.now })
    | .error error => (.error error, asked)
  | .runUntil count => (.ok (), timed.runUntil count (count + 1))
  | .stop => (.ok (), timed.enter (timed.runtime.stop timed.program ∅))
  | .wait milliseconds =>
    (.ok (), timed.runTo (timed.now + milliseconds) (milliseconds / max 1 timed.interval + 2))

end TimedRuntime

end RegionGossip
