import RegionGossip.Execution.Basic

/-!
# A node that one caller operates

One caller starts and stops the execution of a node, one request after the other, while the loops
take their steps whenever they can. Every call that a loop makes is kept together with what came of
it, in one log with the starts.
-/

namespace RegionGossip

/-- A call of a loop with what came of it, or a start. -/
inductive ExecutionMark
  | started
  | before (round : Nat) (outcome : Outcome Unit)
  | round (round : Nat) (neighbors : SortedMap NodeId Payload)
    (outcome : Outcome (Except MeshError RoundOutput))
  | after (round : Nat) (value : Value) (outcome : Outcome Unit)
  | broadcast (payload : Payload)

namespace ExecutionMark

/-- The result of a round that returned one. -/
def output? : ExecutionMark → Option RoundOutput
  | .round _ _ (.returned (.ok output)) => some output
  | _ => none

/-- The payload that was broadcast. -/
def payload? : ExecutionMark → Option Payload
  | .broadcast payload => some payload
  | _ => none

/-- The fault of a call that failed or panicked. -/
def fault? : ExecutionMark → Option ExecutionFault
  | .before _ .panicked => some .loopPanicked
  | .round _ _ (.returned (.error error)) => some (.failed error)
  | .round _ _ .panicked => some .roundPanicked
  | .after _ _ .panicked => some .loopPanicked
  | _ => none

/-- The results of the rounds that returned one. -/
def outputs (log : List ExecutionMark) : List RoundOutput := log.filterMap output?

/-- The payloads that were broadcast. -/
def published (log : List ExecutionMark) : List Payload := log.filterMap payload?

/-- The payloads of the rounds after which the second hook returned, the latest first. -/
def due : (log : List ExecutionMark) → List Payload
  | .after _ _ (.returned _) :: .round _ _ (.returned (.ok output)) :: earlier =>
    output.outbound :: due earlier
  | _ :: earlier => due earlier
  | [] => []

end ExecutionMark

namespace Program

variable {σ : Type}

/-- What comes of a call of a loop, and the foreign code after it. -/
def perform (program : Program σ) (node : NodeId) (inner : σ) :
    ExecutionEvent → ExecutionMark × σ
  | .before round =>
    let (outcome, inner) := program.before node round inner
    (.before round outcome, inner)
  | .round round neighbors =>
    let (outcome, inner) := program.round ⟨node, round, neighbors⟩ inner
    (.round round neighbors outcome, inner)
  | .after round value =>
    let (outcome, inner) := program.after node round value inner
    (.after round value outcome, inner)
  | .broadcast payload => (.broadcast payload, inner)

/-- What comes of some calls, and the foreign code after them; the latest call stands first. -/
def replay (program : Program σ) (node : NodeId) (inner : σ) :
    List ExecutionEvent → List ExecutionMark × σ
  | [] => ([], inner)
  | event :: earlier =>
    let (marks, between) := program.replay node inner earlier
    let (mark, inner) := program.perform node between event
    (mark :: marks, inner)

end Program

/-- A node and the one who starts and stops it. -/
structure Operated (σ : Type) where
  runtime : Runtime σ
  /-- The loop that a stop waits for. -/
  awaited : Option Nat
  /-- What was done so far, the latest first. -/
  log : List ExecutionMark

namespace Operated

variable {σ : Type}

/-- What can happen next. -/
inductive Turn
  /-- The caller asks for a start. -/
  | start
  /-- The caller asks for a stop: the stored loop is taken and cancelled. -/
  | beginStop
  /-- The stop is over, if the loop that it waits for has ended. -/
  | finishStop
  /-- A loop moves on; a round would see `neighbors` now. -/
  | move (loop : Nat) (neighbors : SortedMap NodeId Payload)

/-- A node that has not executed yet. -/
def idle (node : NodeId) (inner : σ) : Operated σ := ⟨Runtime.idle node inner, none, []⟩

/-- A start is asked for. One that is refused leaves everything as it is. -/
def start (operated : Operated σ) : Except MeshError Unit × Operated σ :=
  match operated.runtime.start with
  | .ok runtime => (.ok (), { operated with runtime, log := .started :: operated.log })
  | .error error => (.error error, operated)

/-- The stored loop is taken and cancelled, and waited for. Where none is stored nothing is done. -/
def beginStop (operated : Operated σ) : Operated σ :=
  match operated.runtime.beginStop with
  | some (loop, runtime) => { operated with runtime, awaited := some loop }
  | none => operated

/-- The node is marked as stopped once the loop that is waited for has ended. -/
def finishStop (operated : Operated σ) : Operated σ :=
  match operated.awaited with
  | some loop =>
    match operated.runtime.phase loop with
    | .ended => { operated with runtime := operated.runtime.finishStop, awaited := none }
    | _ => operated
  | none => operated

/-- A loop moves on, and its calls are entered in the log with what came of them. -/
def move (program : Program σ) (operated : Operated σ) (loop : Nat)
    (neighbors : SortedMap NodeId Payload) : Operated σ :=
  let before := operated.runtime
  let runtime := ({ before with events := [] }).step program neighbors loop
  { operated with
    runtime
    log := (program.replay before.node before.inner runtime.events).1 ++ operated.log }

/-- What happens next. While the caller waits for a loop it asks for nothing. -/
def turn (program : Program σ) (operated : Operated σ) : Turn → Operated σ
  | .start => if operated.awaited.isSome then operated else operated.start.2
  | .beginStop => if operated.awaited.isSome then operated else operated.beginStop
  | .finishStop => operated.finishStop
  | .move loop neighbors => operated.move program loop neighbors

/-- Whatever happens, one after the other. -/
def run (program : Program σ) (operated : Operated σ) (turns : List Turn) : Operated σ :=
  turns.foldl (turn program) operated

end Operated

end RegionGossip
