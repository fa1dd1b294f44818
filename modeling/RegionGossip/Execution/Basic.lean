import RegionGossip.Kernel

/-!
# The execution loop of a node

A node repeats a cycle: a hook before the round, the round itself on the latest payloads of the
neighbours, a hook after it, and the broadcast of what the round produced. A loop is started and
stopped from outside, and ends on its own when a round fails or anything in a cycle panics.

The state holds every loop that was ever started, because stopping one takes two steps between which
others may act: the loop is taken and cancelled, and only after it has ended is the node marked as
stopped. A loop moves in steps from one point where it waits to the next.
-/

namespace RegionGossip

/-- Whether a node executes. -/
inductive RuntimeState
  | idle
  | running
  | stopped
  deriving DecidableEq, Repr, Inhabited

/-- The name of a runtime state. -/
def RuntimeState.name : RuntimeState → String
  | .idle => "Idle"
  | .running => "Running"
  | .stopped => "Stopped"

/-- What comes of a call into foreign code. -/
inductive Outcome (α : Type) where
  | returned (value : α)
  | panicked

/-- The foreign code of a node: the computation of a round and the hooks around it. They share a
state of any type, which they may change even when they panic. -/
structure Program (σ : Type) where
  /-- Called before a round, with the number of rounds completed. -/
  before : NodeId → Nat → σ → Outcome Unit × σ
  /-- The round. -/
  round : RoundContext → σ → Outcome (Except MeshError RoundOutput) × σ
  /-- Called after a round, with the number of rounds completed including it. -/
  after : NodeId → Nat → Value → σ → Outcome Unit × σ

/-- Why a loop ended on its own. -/
inductive ExecutionFault
  | failed (error : MeshError)
  | roundPanicked
  | loopPanicked
  deriving Repr

/-- The wording of an execution fault. What a panic says is a detail. -/
def ExecutionFault.message (wording : Detail → String) (panicText : String) :
    ExecutionFault → String
  | .failed error => error.message wording
  | .roundPanicked => "kernel panicked"
  | .loopPanicked => "execution loop panicked: " ++ panicText

/-- What a loop does that others can see. -/
inductive ExecutionEvent
  | before (round : Nat)
  | round (round : Nat) (neighbors : SortedMap NodeId Payload)
  | after (round : Nat) (value : Value)
  | broadcast (payload : Payload)

/-- The payloads among some events, in the order of the events. -/
def ExecutionEvent.published : List ExecutionEvent → List Payload :=
  List.filterMap fun event => match event with
    | .broadcast payload => some payload
    | _ => none

/-- Where a loop is in its cycle. -/
inductive LoopPhase
  /-- At the top: it looks whether it is cancelled, and begins a cycle if not. -/
  | top
  /-- The first hook has returned; the round comes next. -/
  | began (round : Nat)
  /-- The round is complete; its payload is to be broadcast. -/
  | completed (outbound : Payload)
  /-- It waits for the next cycle, or to be cancelled. -/
  | sleeping
  /-- Something in it panicked, which is yet to be recorded. -/
  | panicked
  | ended

/-- A loop. -/
structure LoopTask where
  phase : LoopPhase
  cancelled : Bool

/-- The execution state of a node. -/
structure Runtime (σ : Type) where
  node : NodeId
  /-- The state of the foreign code. -/
  inner : σ
  /-- The number of rounds that returned a result. A node counts them in 64 bits, which no run comes
  to the end of, so a natural number does. -/
  executions : Nat
  state : RuntimeState
  localValue : Value
  lastError : Option ExecutionFault
  /-- Every loop that was started, in order. -/
  loops : List LoopTask
  /-- The loop that the next stop takes. -/
  stored : Option Nat
  /-- What was done so far, the latest first. -/
  events : List ExecutionEvent

namespace Runtime

variable {σ : Type}

/-- A node that has not executed yet. -/
def idle (node : NodeId) (inner : σ) : Runtime σ :=
  { node, inner
    executions := 0
    state := .idle
    localValue := .null
    lastError := none
    loops := []
    stored := none
    events := [] }

/-- A loop is started, unless the node is running. -/
def start (runtime : Runtime σ) : Except MeshError (Runtime σ) :=
  if runtime.state = .running then
    .error (.illegalState (.alreadyExecuting runtime.node.name))
  else
    .ok
      { runtime with
        state := .running
        lastError := none
        loops := runtime.loops ++ [⟨.top, false⟩]
        stored := some runtime.loops.length }

/-- A loop is changed. -/
def setLoop (runtime : Runtime σ) (loop : Nat) (change : LoopTask → LoopTask) : Runtime σ :=
  { runtime with loops := runtime.loops.modify loop change }

/-- The phase of a loop; one that was never started has ended. -/
def phase (runtime : Runtime σ) (loop : Nat) : LoopPhase :=
  match runtime.loops[loop]? with
  | some task => task.phase
  | none => .ended

/-- Whether a loop is cancelled. -/
def isCancelled (runtime : Runtime σ) (loop : Nat) : Bool :=
  match runtime.loops[loop]? with
  | some task => task.cancelled
  | none => true

/-- The first step of a stop: the stored loop is taken and cancelled. There is nothing to stop where
none is stored. -/
def beginStop (runtime : Runtime σ) : Option (Nat × Runtime σ) :=
  runtime.stored.map fun loop =>
    (loop, ({ runtime with stored := none }).setLoop loop fun task =>
      { task with cancelled := true })

/-- The last step of a stop, after the loop has ended. -/
def finishStop (runtime : Runtime σ) : Runtime σ := { runtime with state := .stopped }

/-- A loop moves to another phase. -/
def moveTo (runtime : Runtime σ) (loop : Nat) (phase : LoopPhase) : Runtime σ :=
  runtime.setLoop loop fun task => { task with phase }

/-- Something was done. -/
def record (runtime : Runtime σ) (event : ExecutionEvent) : Runtime σ :=
  { runtime with events := event :: runtime.events }

/-- A loop ends on its own. -/
def fail (runtime : Runtime σ) (loop : Nat) (fault : ExecutionFault) : Runtime σ :=
  ({ runtime with lastError := some fault, state := .stopped }).moveTo loop .ended

/-- The top of a cycle: the first hook is called, unless the loop is cancelled. -/
def stepTop (program : Program σ) (runtime : Runtime σ) (loop : Nat) : Runtime σ :=
  if runtime.isCancelled loop then runtime.moveTo loop .ended
  else
    let round := runtime.executions
    let (outcome, inner) := program.before runtime.node round runtime.inner
    let called := ({ runtime with inner }).record (.before round)
    match outcome with
    | .returned _ => called.moveTo loop (.began round)
    | .panicked => called.moveTo loop .panicked

/-- A round that returned a result is counted, its value is kept, and the second hook is called. -/
def complete (program : Program σ) (runtime : Runtime σ) (loop : Nat) (output : RoundOutput) :
    Runtime σ :=
  let completed := runtime.executions + 1
  let (outcome, inner) := program.after runtime.node completed output.localValue runtime.inner
  let called :=
    ({ runtime with executions := completed, localValue := output.localValue, inner }).record
      (.after completed output.localValue)
  match outcome with
  | .returned _ => called.moveTo loop (.completed output.outbound)
  | .panicked => called.moveTo loop .panicked

/-- The round is called on what the neighbours sent last. -/
def stepRound (program : Program σ) (neighbors : SortedMap NodeId Payload) (runtime : Runtime σ)
    (loop round : Nat) : Runtime σ :=
  let (outcome, inner) := program.round ⟨runtime.node, round, neighbors⟩ runtime.inner
  let called := ({ runtime with inner }).record (.round round neighbors)
  match outcome with
  | .returned (.ok output) => called.complete program loop output
  | .returned (.error error) => called.fail loop (.failed error)
  | .panicked => called.fail loop .roundPanicked

/-- A loop moves on to the next point where it waits. `neighbors` is what a round would see now. A
loop that sleeps is woken by its timer or by being cancelled. -/
def step (program : Program σ) (neighbors : SortedMap NodeId Payload) (runtime : Runtime σ)
    (loop : Nat) : Runtime σ :=
  match runtime.phase loop with
  | .top => runtime.stepTop program loop
  | .began round => runtime.stepRound program neighbors loop round
  | .completed outbound => (runtime.record (.broadcast outbound)).moveTo loop .sleeping
  | .sleeping =>
    if runtime.isCancelled loop then runtime.moveTo loop .ended else runtime.moveTo loop .top
  | .panicked => runtime.fail loop .loopPanicked
  | .ended => runtime

/-- Whether a loop waits for its timer or for good. -/
def rests (runtime : Runtime σ) (loop : Nat) : Bool :=
  match runtime.phase loop with
  | .sleeping => true
  | .ended => true
  | _ => false

/-- Steps of a loop until it rests; no cycle has more than four of them. -/
def settle (program : Program σ) (neighbors : SortedMap NodeId Payload) (loop : Nat) :
    (fuel : Nat) → Runtime σ → Runtime σ
  | 0, runtime => runtime
  | fuel + 1, runtime =>
    if runtime.rests loop then runtime
    else settle program neighbors loop fuel (runtime.step program neighbors loop)

/-- One whole cycle of a loop: it is woken and runs until it rests again. -/
def cycle (program : Program σ) (neighbors : SortedMap NodeId Payload) (runtime : Runtime σ)
    (loop : Nat) : Runtime σ :=
  settle program neighbors loop 5 (runtime.step program neighbors loop)

/-- Both steps of a stop by the only caller, with the loop run to its end in between: a cycle that
was begun is finished, and the sleep after it is cut short. -/
def stop (program : Program σ) (neighbors : SortedMap NodeId Payload) (runtime : Runtime σ) :
    Runtime σ :=
  match runtime.beginStop with
  | none => runtime
  | some (loop, cancelled) =>
    ((cancelled.cycle program neighbors loop).cycle program neighbors loop).finishStop

end Runtime

/-- The program of a node that spreads the largest seed. -/
def MaxKernel.program : Program MaxKernel where
  before _ _ kernel := (.returned (), kernel)
  round context kernel :=
    let next := kernel.run context.neighbors
    (.returned (.ok next.output), next)
  after _ _ _ kernel := (.returned (), kernel)

end RegionGossip
