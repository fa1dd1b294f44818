import RegionGossip.Execution.Basic

/-!
# A node that several callers operate

Any number of callers start and stop the execution of a node, while its loops take their steps. A
stop that has taken a loop waits until this loop has ended and marks the node as stopped only then.
In between other callers may do anything, and so may the loops.
-/

namespace RegionGossip

variable {σ : Type}

/-- Whether a loop in a phase can still come to a round: it has begun a cycle, or it is neither
cancelled nor at its end. -/
def LoopPhase.mayRun (cancelled : Bool) : LoopPhase → Bool
  | .began _ => true
  | .top | .completed _ | .sleeping => !cancelled
  | .panicked | .ended => false

/-- Whether a loop can still come to a round. -/
def Runtime.mayRun (runtime : Runtime σ) (loop : Nat) : Bool :=
  (runtime.phase loop).mayRun (runtime.isCancelled loop)

/-- A node and those who start and stop it. -/
structure Contended (σ : Type) where
  runtime : Runtime σ
  /-- The loops that stops wait for, one for each stop that has not yet come to its end. -/
  awaited : List Nat

namespace Contended

/-- What can happen next. -/
inductive Turn
  /-- A caller asks for a start. -/
  | start
  /-- A caller asks for a stop: the stored loop is taken and cancelled. -/
  | beginStop
  /-- A stop that waits for a loop is over, if the loop has ended. -/
  | finishStop (loop : Nat)
  /-- A loop moves on; a round would see `neighbors` now. -/
  | move (loop : Nat) (neighbors : SortedMap NodeId Payload)

/-- A node that has not executed yet. -/
def idle (node : NodeId) (inner : σ) : Contended σ := ⟨Runtime.idle node inner, []⟩

/-- A start is asked for. One that is refused leaves everything as it is. -/
def start (contended : Contended σ) : Contended σ :=
  match contended.runtime.start with
  | .ok runtime => { contended with runtime }
  | .error _ => contended

/-- The stored loop is taken and cancelled, and waited for. Where none is stored nothing is done. -/
def beginStop (contended : Contended σ) : Contended σ :=
  match contended.runtime.beginStop with
  | some (loop, runtime) => ⟨runtime, loop :: contended.awaited⟩
  | none => contended

/-- The node is marked as stopped, if a stop waits for a loop that has ended. -/
def finishStop (contended : Contended σ) (loop : Nat) : Contended σ :=
  match contended.awaited.contains loop, contended.runtime.phase loop with
  | true, .ended => ⟨contended.runtime.finishStop, contended.awaited.erase loop⟩
  | _, _ => contended

/-- What happens next. -/
def turn (program : Program σ) (contended : Contended σ) : Turn → Contended σ
  | .start => contended.start
  | .beginStop => contended.beginStop
  | .finishStop loop => contended.finishStop loop
  | .move loop neighbors =>
    { contended with runtime := contended.runtime.step program neighbors loop }

/-- Whatever happens, one after the other. -/
def run (program : Program σ) (contended : Contended σ) (turns : List Turn) : Contended σ :=
  turns.foldl (turn program) contended

end Contended

end RegionGossip
