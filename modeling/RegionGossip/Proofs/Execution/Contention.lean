import RegionGossip.Execution.Contended
import RegionGossip.Proofs.Execution.Accounts

/-!
# Which loops of a contended node can still run

Of a node that several callers start and stop, at most one loop can still come to a round, and it is
the one that the next stop takes or one that was cancelled, as long as no start is accepted while a
stop waits for a loop. A round that fails marks the node as stopped before the stop does. A start
that is accepted in between is not seen by the stop, which marks the node as stopped once more, and
the next start puts a second loop beside the first.
-/

namespace RegionGossip

variable {σ : Type}

namespace Runtime

variable {program : Program σ} {neighbors : SortedMap NodeId Payload} {runtime : Runtime σ}
  {loop other : Nat}

/-! ## Cancelled loops -/

/-- A loop that moves is cancelled if it was. -/
theorem isCancelled_moveTo (runtime : Runtime σ) (loop : Nat) (phase : LoopPhase) (other : Nat) :
    (runtime.moveTo loop phase).isCancelled other = runtime.isCancelled other := by
  rw [isCancelled, moveTo, setLoop, List.getElem?_modify, isCancelled]
  cases runtime.loops[other]? with
  | none => rfl
  | some task => by_cases hsame : loop = other <;> simp [hsame]

/-- The runtime after a stop has taken a loop. -/
def taken (runtime : Runtime σ) (loop : Nat) : Runtime σ :=
  ({ runtime with stored := none }).setLoop loop fun task => { task with cancelled := true }

/-- A loop that is taken stays where it is, and so do the others. -/
theorem phase_taken (runtime : Runtime σ) (loop other : Nat) :
    (runtime.taken loop).phase other = runtime.phase other :=
  phase_cancel { runtime with stored := none } loop other

/-- A loop that is taken is cancelled, and no other one by that. -/
theorem isCancelled_taken (runtime : Runtime σ) (loop other : Nat) :
    (runtime.taken loop).isCancelled other =
      (decide (other = loop) || runtime.isCancelled other) := by
  rw [isCancelled, taken, setLoop, List.getElem?_modify, isCancelled]
  cases runtime.loops[other]? with
  | none => simp
  | some task => by_cases hsame : loop = other <;> simp [hsame, eq_comm]

/-- A start cancels no loop. -/
theorem isCancelled_start {started : Runtime σ} (hstart : runtime.start = .ok started)
    (hloop : loop < runtime.loops.length) :
    started.isCancelled loop = runtime.isCancelled loop := by
  rcases runtime.start_cases with ⟨-, hrefused⟩ | ⟨-, haccepted⟩
  · rw [hrefused] at hstart
    contradiction
  · obtain rfl := Except.ok.inj (haccepted.symm.trans hstart)
    rw [isCancelled, List.getElem?_append_left hloop, isCancelled]

/-! ## What a step of a loop can do -/

/-- A loop that has ended stays where it is, and any other one moves to a phase. It leaves the other
loops, the one that is stored and, unless it ends by a fault, the state as they are. -/
theorem step_cases (program : Program σ) (neighbors : SortedMap NodeId Payload)
    (runtime : Runtime σ) (loop : Nat) :
    (runtime.phase loop = .ended ∧ runtime.step program neighbors loop = runtime) ∨
      (runtime.phase loop ≠ .ended ∧ ∃ (called : Runtime σ) (phase : LoopPhase),
        runtime.step program neighbors loop = called.moveTo loop phase ∧
        called.loops = runtime.loops ∧ called.stored = runtime.stored ∧
        (called.state = runtime.state ∨ (called.state = .stopped ∧ phase = .ended))) := by
  cases hphase : runtime.phase loop with
  | ended =>
    refine .inl ⟨rfl, ?_⟩
    simp only [step, hphase]
  | top =>
    refine .inr ⟨by simp, ?_⟩
    simp only [step, hphase, stepTop]
    split
    · exact ⟨runtime, _, rfl, rfl, rfl, .inl rfl⟩
    · split <;> exact ⟨_, _, rfl, rfl, rfl, .inl rfl⟩
  | began round =>
    refine .inr ⟨by simp, ?_⟩
    simp only [step, hphase, stepRound]
    split
    · simp only [complete]
      split <;> exact ⟨_, _, rfl, rfl, rfl, .inl rfl⟩
    · exact ⟨_, _, rfl, rfl, rfl, .inr ⟨rfl, rfl⟩⟩
    · exact ⟨_, _, rfl, rfl, rfl, .inr ⟨rfl, rfl⟩⟩
  | completed outbound =>
    refine .inr ⟨by simp, ?_⟩
    simp only [step, hphase]
    exact ⟨_, _, rfl, rfl, rfl, .inl rfl⟩
  | sleeping =>
    refine .inr ⟨by simp, ?_⟩
    simp only [step, hphase]
    split <;> exact ⟨runtime, _, rfl, rfl, rfl, .inl rfl⟩
  | panicked =>
    refine .inr ⟨by simp, ?_⟩
    simp only [step, hphase]
    exact ⟨_, _, rfl, rfl, rfl, .inr ⟨rfl, rfl⟩⟩

/-- The phase of a loop and whether it is cancelled are read off the loops. -/
theorem phase_of_loops_eq {called : Runtime σ} (hloops : called.loops = runtime.loops)
    (loop : Nat) : called.phase loop = runtime.phase loop ∧
      called.isCancelled loop = runtime.isCancelled loop := by
  rw [phase, isCancelled, hloops]
  exact ⟨rfl, rfl⟩

/-- The step of a loop leaves the other loops where they are. -/
theorem phase_step_of_ne (program : Program σ) (neighbors : SortedMap NodeId Payload)
    (runtime : Runtime σ) (hother : other ≠ loop) :
    (runtime.step program neighbors loop).phase other = runtime.phase other := by
  rcases runtime.step_cases program neighbors loop with ⟨-, hstep⟩ |
    ⟨hlive, called, phase, hstep, hloops, -⟩
  · rw [hstep]
  · have hstarted : loop < called.loops.length := hloops ▸ lt_length_of_phase hlive
    rw [hstep, phase_moveTo hstarted, if_neg hother, (phase_of_loops_eq hloops other).1]

/-- The step of a loop cancels none. -/
theorem isCancelled_step (program : Program σ) (neighbors : SortedMap NodeId Payload)
    (runtime : Runtime σ) (loop other : Nat) :
    (runtime.step program neighbors loop).isCancelled other = runtime.isCancelled other := by
  rcases runtime.step_cases program neighbors loop with ⟨-, hstep⟩ |
    ⟨-, called, phase, hstep, hloops, -⟩
  · rw [hstep]
  · rw [hstep, isCancelled_moveTo, (phase_of_loops_eq hloops other).2]

/-- The step of a loop leaves the stored one as it is. -/
theorem stored_step (program : Program σ) (neighbors : SortedMap NodeId Payload)
    (runtime : Runtime σ) (loop : Nat) :
    (runtime.step program neighbors loop).stored = runtime.stored := by
  rcases runtime.step_cases program neighbors loop with ⟨-, hstep⟩ |
    ⟨-, called, phase, hstep, -, hstored, -⟩
  · rw [hstep]
  · rw [hstep]
    exact hstored

/-! ## Loops that can still come to a round -/

/-- A loop that can come to a round is not at its end. -/
theorem phase_ne_ended_of_mayRun (hmay : runtime.mayRun loop = true) :
    runtime.phase loop ≠ .ended := by
  intro hended
  rw [mayRun, hended] at hmay
  contradiction

/-- Whether a loop can come to a round is read off its phase and whether it is cancelled. -/
theorem mayRun_congr {after : Runtime σ} (hphase : after.phase loop = runtime.phase loop)
    (hcancelled : after.isCancelled loop = runtime.isCancelled loop) :
    after.mayRun loop = runtime.mayRun loop := by
  rw [mayRun, hphase, hcancelled, mayRun]

/-- A loop that moves can come to a round if it can from its new phase. -/
theorem mayRun_moveTo (hstarted : loop < runtime.loops.length) (phase : LoopPhase) :
    (runtime.moveTo loop phase).mayRun loop = phase.mayRun (runtime.isCancelled loop) := by
  rw [mayRun, phase_moveTo hstarted, if_pos rfl, isCancelled_moveTo]

/-- A loop that cannot come to a round any more does not by its own steps. -/
theorem mayRun_step_self (program : Program σ) (neighbors : SortedMap NodeId Payload)
    (hnever : runtime.mayRun loop = false) :
    (runtime.step program neighbors loop).mayRun loop = false := by
  have hmoves {called : Runtime σ} {phase : LoopPhase} (hlive : runtime.phase loop ≠ .ended)
      (hloops : called.loops = runtime.loops)
      (hphase : phase.mayRun (runtime.isCancelled loop) = false) :
      (called.moveTo loop phase).mayRun loop = false := by
    have hcancelled := (phase_of_loops_eq hloops loop).2
    rw [mayRun_moveTo (hloops ▸ lt_length_of_phase hlive), hcancelled, hphase]
  have hfound := hnever
  rw [mayRun] at hfound
  cases hphase : runtime.phase loop with
  | ended =>
    simp only [step, hphase]
    exact hnever
  | began round =>
    rw [hphase] at hfound
    contradiction
  | top =>
    rw [hphase, LoopPhase.mayRun, Bool.not_eq_false'] at hfound
    simp only [step, hphase, stepTop, hfound, if_true]
    exact hmoves (by simp [hphase]) rfl rfl
  | completed outbound =>
    rw [hphase] at hfound
    simp only [step, hphase]
    exact hmoves (by simp [hphase]) rfl hfound
  | sleeping =>
    rw [hphase, LoopPhase.mayRun, Bool.not_eq_false'] at hfound
    simp only [step, hphase, hfound, if_true]
    exact hmoves (by simp [hphase]) rfl rfl
  | panicked =>
    simp only [step, hphase]
    exact hmoves (by simp [hphase]) rfl rfl

/-- A loop that cannot come to a round any more does not by the steps of any loop. -/
theorem mayRun_step (program : Program σ) (neighbors : SortedMap NodeId Payload)
    (hmay : (runtime.step program neighbors loop).mayRun other = true) :
    runtime.mayRun other = true := by
  by_cases hother : other = loop
  · subst hother
    refine Classical.byContradiction fun hnever => ?_
    rw [mayRun_step_self program neighbors (by simpa using hnever)] at hmay
    contradiction
  · rwa [mayRun_congr (phase_step_of_ne program neighbors runtime hother)
      (isCancelled_step program neighbors runtime loop other)] at hmay

/-- A loop that is not cancelled begins a cycle from its top, once the first hook has returned. -/
theorem phase_step_of_top (hphase : runtime.phase loop = .top)
    (hopen : runtime.isCancelled loop = false)
    (hreturns : (program.before runtime.node runtime.executions runtime.inner).1 = .returned ()) :
    (runtime.step program neighbors loop).phase loop = .began runtime.executions := by
  have hstarted : loop < runtime.loops.length :=
    lt_length_of_phase (by simp [hphase])
  simp only [step, hphase, stepTop, hopen, Bool.false_eq_true, if_false, hreturns]
  exact (phase_moveTo hstarted _ _).trans (if_pos rfl)

/-- A loop that is woken without being cancelled is at the top of the next cycle. -/
theorem phase_step_of_sleeping (hphase : runtime.phase loop = .sleeping)
    (hopen : runtime.isCancelled loop = false) :
    (runtime.step program neighbors loop).phase loop = .top := by
  have hstarted : loop < runtime.loops.length :=
    lt_length_of_phase (by simp [hphase])
  simp only [step, hphase, hopen, Bool.false_eq_true, if_false]
  exact (phase_moveTo hstarted _ _).trans (if_pos rfl)

/-- A loop sleeps after its broadcast. -/
theorem phase_step_of_completed {outbound : Payload}
    (hphase : runtime.phase loop = .completed outbound) :
    (runtime.step program neighbors loop).phase loop = .sleeping := by
  have hstarted : loop < runtime.loops.length :=
    lt_length_of_phase (by simp [hphase])
  simp only [step, hphase]
  exact (phase_moveTo hstarted _ _).trans (if_pos rfl)

end Runtime

/-- A program whose hooks return and whose rounds panic. -/
def Program.futile : Program σ where
  before _ _ inner := (.returned (), inner)
  round _ inner := (.panicked, inner)
  after _ _ _ inner := (.returned (), inner)

/-- A loop that could come to a round if it were cancelled can in any case. -/
theorem LoopPhase.mayRun_of_cancelled {phase : LoopPhase} (hmay : phase.mayRun true = true)
    (cancelled : Bool) : phase.mayRun cancelled = true := by
  cases phase <;> first | rfl | contradiction

namespace Contended

variable {program : Program σ} {contended : Contended σ} {loop other : Nat}

/-- What a turn does to the runtime: a start that is accepted, the first or the last step of a stop,
or the step of a loop, unless there is nothing to do. -/
theorem turn_cases (program : Program σ) (contended : Contended σ) (turn : Turn) :
    contended.turn program turn = contended ∨
      (turn = .start ∧ contended.runtime.state ≠ .running ∧ ∃ started,
        contended.runtime.start = .ok started ∧ started.state = .running ∧
          started.stored = some contended.runtime.loops.length ∧
          contended.turn program turn = ⟨started, contended.awaited⟩) ∨
      (turn = .beginStop ∧ ∃ loop, contended.runtime.stored = some loop ∧
        contended.turn program turn =
          ⟨contended.runtime.taken loop, loop :: contended.awaited⟩) ∨
      (∃ loop, turn = .finishStop loop ∧ loop ∈ contended.awaited ∧
        contended.runtime.phase loop = .ended ∧
          contended.turn program turn =
            ⟨contended.runtime.finishStop, contended.awaited.erase loop⟩) ∨
      ∃ loop neighbors, turn = .move loop neighbors ∧
        contended.turn program turn =
          ⟨contended.runtime.step program neighbors loop, contended.awaited⟩ := by
  cases turn with
  | start =>
    rcases contended.runtime.start_cases with ⟨-, hrefused⟩ | ⟨hstopped, haccepted⟩
    · refine .inl ?_
      simp only [Contended.turn, start, hrefused]
    · refine .inr (.inl ⟨rfl, hstopped, _, haccepted, rfl, rfl, ?_⟩)
      simp only [Contended.turn, start, haccepted]
  | beginStop =>
    cases hstored : contended.runtime.stored with
    | none =>
      refine .inl ?_
      simp only [Contended.turn, beginStop, Runtime.beginStop, hstored, Option.map_none]
    | some loop =>
      refine .inr (.inr (.inl ⟨rfl, loop, rfl, ?_⟩))
      simp only [Contended.turn, beginStop, Runtime.beginStop, hstored, Option.map_some]
      rfl
  | finishStop loop =>
    cases hwaits : contended.awaited.contains loop with
    | false =>
      refine .inl ?_
      simp only [Contended.turn, finishStop, hwaits]
    | true =>
      cases hphase : contended.runtime.phase loop with
      | ended =>
        refine .inr (.inr (.inr (.inl ⟨loop, rfl, by simpa using hwaits, hphase, ?_⟩)))
        simp only [Contended.turn, finishStop, hwaits, hphase]
      | _ =>
        refine .inl ?_
        simp only [Contended.turn, finishStop, hwaits, hphase]
  | move loop neighbors => exact .inr (.inr (.inr (.inr ⟨loop, neighbors, rfl, rfl⟩)))

/-- A turn takes no loop away. -/
theorem length_turn (program : Program σ) (contended : Contended σ) (turn : Turn) :
    contended.runtime.loops.length ≤ (contended.turn program turn).runtime.loops.length := by
  rcases contended.turn_cases program turn with hsame | ⟨-, -, started, hstart, -, -, hturn⟩ |
    ⟨-, loop, -, hturn⟩ | ⟨loop, -, -, -, hturn⟩ | ⟨loop, neighbors, -, hturn⟩
  · exact Nat.le_of_eq (by rw [hsame])
  · rcases contended.runtime.start_cases with ⟨-, hrefused⟩ | ⟨-, haccepted⟩
    · rw [hrefused] at hstart
      contradiction
    · obtain rfl := Except.ok.inj (haccepted.symm.trans hstart)
      rw [hturn, List.length_append]
      exact Nat.le_add_right ..
  · rw [hturn]
    exact Nat.le_of_eq (List.length_modify ..).symm
  · rw [hturn]
    exact Nat.le_refl _
  · rw [hturn]
    rcases contended.runtime.step_cases program neighbors loop with ⟨-, hstep⟩ |
      ⟨-, called, phase, hstep, hloops, -⟩
    · exact Nat.le_of_eq (by rw [hstep])
    · rw [hstep, ← hloops]
      exact Nat.le_of_eq (List.length_modify ..).symm

/-- No turn enables a loop to come to a round that could not before. -/
theorem mayRun_turn {turn : Turn} (hstarted : loop < contended.runtime.loops.length)
    (hmay : (contended.turn program turn).runtime.mayRun loop = true) :
    contended.runtime.mayRun loop = true := by
  rcases contended.turn_cases program turn with hsame | ⟨-, -, started, hstart, -, -, hturn⟩ |
    ⟨-, taken, -, hturn⟩ | ⟨waited, -, -, -, hturn⟩ | ⟨moved, neighbors, -, hturn⟩
  · rwa [hsame] at hmay
  · rw [hturn] at hmay
    have hphase := Runtime.phase_start hstart loop
    rw [if_neg (Nat.ne_of_lt hstarted)] at hphase
    rwa [Runtime.mayRun_congr hphase (Runtime.isCancelled_start hstart hstarted)] at hmay
  · rw [hturn, Runtime.mayRun, Runtime.phase_taken, Runtime.isCancelled_taken] at hmay
    rw [Runtime.mayRun]
    by_cases htaken : loop = taken
    · rw [htaken, decide_eq_true rfl, Bool.true_or] at hmay
      exact htaken ▸ LoopPhase.mayRun_of_cancelled hmay _
    · rwa [decide_eq_false htaken, Bool.false_or] at hmay
  · rw [hturn] at hmay
    exact hmay
  · rw [hturn] at hmay
    exact Runtime.mayRun_step program neighbors hmay

/-- No run enables a loop to come to a round that could not before. -/
theorem mayRun_run {turns : List Turn} (hstarted : loop < contended.runtime.loops.length)
    (hmay : (contended.run program turns).runtime.mayRun loop = true) :
    contended.runtime.mayRun loop = true := by
  induction turns generalizing contended with
  | nil => exact hmay
  | cons turn later ih =>
    have hstarted' := Nat.lt_of_lt_of_le hstarted (length_turn program contended turn)
    exact mayRun_turn hstarted (ih hstarted' hmay)

/-- The loops that can come to a round are those that are about to run one after some further turns,
whatever the callers do, with one program or another. -/
theorem mayRun_iff (hstarted : loop < contended.runtime.loops.length) :
    contended.runtime.mayRun loop = true ↔
      ∃ (program : Program σ) (turns : List Turn) (round : Nat),
        (contended.run program turns).runtime.phase loop = .began round := by
  constructor
  · intro hmay
    refine ⟨.futile, ?_⟩
    have hopen {phase : LoopPhase} (hphase : contended.runtime.phase loop = phase)
        (hwaits : ∀ cancelled, phase.mayRun cancelled = !cancelled) :
        contended.runtime.isCancelled loop = false := by
      rwa [Runtime.mayRun, hphase, hwaits, Bool.not_eq_true'] at hmay
    cases hphase : contended.runtime.phase loop with
    | began round => exact ⟨[], round, hphase⟩
    | top =>
      exact ⟨[.move loop ∅], _, Runtime.phase_step_of_top hphase (hopen hphase fun _ => rfl) rfl⟩
    | sleeping =>
      have hopen := hopen hphase fun _ => rfl
      refine ⟨[.move loop ∅, .move loop ∅], _, Runtime.phase_step_of_top
        (Runtime.phase_step_of_sleeping hphase hopen) ?_ rfl⟩
      exact (Runtime.isCancelled_step ..).trans hopen
    | completed outbound =>
      have hopen := hopen hphase fun _ => rfl
      refine ⟨[.move loop ∅, .move loop ∅, .move loop ∅], _, Runtime.phase_step_of_top
        (Runtime.phase_step_of_sleeping (Runtime.phase_step_of_completed hphase) ?_) ?_ rfl⟩
      · exact (Runtime.isCancelled_step ..).trans hopen
      · exact (Runtime.isCancelled_step ..).trans ((Runtime.isCancelled_step ..).trans hopen)
    | panicked | ended =>
      rw [Runtime.mayRun, hphase] at hmay
      contradiction
  · rintro ⟨program, turns, round, hbegan⟩
    have hmay : (contended.run program turns).runtime.mayRun loop = true := by
      rw [Runtime.mayRun, hbegan]
      rfl
    exact mayRun_run hstarted hmay

/-! ## Starts that wait for stops -/

/-- Whether a turn is not a start that is accepted while a stop waits for a loop. -/
def isPatient (contended : Contended σ) : Turn → Bool
  | .start => contended.awaited.isEmpty || contended.runtime.state == .running
  | _ => true

/-- Whether no start is accepted while a stop waits for a loop. -/
def isPatientRun (program : Program σ) (contended : Contended σ) : List Turn → Bool
  | [] => true
  | turn :: later =>
    contended.isPatient turn && (contended.turn program turn).isPatientRun program later

/-- At most one loop is not at its end: the stored one, or a cancelled one that a stop waits for. -/
structure Tidy (contended : Contended σ) : Prop where
  waits : contended.awaited = [] ∨
    (contended.runtime.stored = none ∧ ∃ loop, contended.awaited = [loop])
  live : ∀ {loop}, contended.runtime.phase loop ≠ .ended →
    contended.runtime.stored = some loop ∨
      (loop ∈ contended.awaited ∧ contended.runtime.isCancelled loop = true)
  /-- The node is marked as running as long as a loop is not at its end. -/
  running : ∀ {loop}, contended.runtime.phase loop ≠ .ended → contended.runtime.state = .running

namespace Tidy

/-- A node that has not executed yet. -/
theorem idle (node : NodeId) (inner : σ) : (Contended.idle node inner).Tidy where
  waits := .inl rfl
  live hlive := absurd rfl hlive
  running hlive := absurd rfl hlive

/-- No two loops are not at their ends. -/
theorem unique (htidy : contended.Tidy) (hloop : contended.runtime.phase loop ≠ .ended)
    (hother : contended.runtime.phase other ≠ .ended) : loop = other := by
  rcases htidy.waits with hnone | ⟨hstored, waited, hwaits⟩
  · have hstored {live : Nat} (hlive : contended.runtime.phase live ≠ .ended) :
        contended.runtime.stored = some live := by
      refine (htidy.live hlive).resolve_right fun ⟨hmem, _⟩ => ?_
      rw [hnone] at hmem
      exact List.not_mem_nil hmem
    exact Option.some.inj ((hstored hloop).symm.trans (hstored hother))
  · have hwaited {live : Nat} (hlive : contended.runtime.phase live ≠ .ended) : live = waited := by
      rcases htidy.live hlive with htaken | ⟨hmem, -⟩
      · rw [hstored] at htaken
        contradiction
      · rw [hwaits] at hmem
        exact List.mem_singleton.1 hmem
    exact (hwaited hloop).trans (hwaited hother).symm

/-- A start that is accepted while no stop waits for a loop. -/
theorem start (htidy : contended.Tidy) (hidle : contended.awaited = [])
    (hstopped : contended.runtime.state ≠ .running) {started : Runtime σ}
    (hstart : contended.runtime.start = .ok started) (hrunning : started.state = .running)
    (hstored : started.stored = some contended.runtime.loops.length) :
    Tidy ⟨started, contended.awaited⟩ where
  waits := .inl hidle
  live := fun {loop} hlive => by
    refine .inl (hstored.trans (congrArg some ?_))
    have hphase : started.phase loop ≠ .ended := hlive
    rw [Runtime.phase_start hstart] at hphase
    split at hphase
    · rename_i hlast
      exact hlast.symm
    · exact absurd (htidy.running hphase) hstopped
  running _ := hrunning

/-- The stored loop is taken, while no other stop waits for a loop. -/
theorem beginStop (htidy : contended.Tidy) (hstored : contended.runtime.stored = some loop) :
    Tidy ⟨contended.runtime.taken loop, loop :: contended.awaited⟩ := by
  have hnone : contended.awaited = [] := htidy.waits.resolve_right fun ⟨htaken, _⟩ => by
    rw [hstored] at htaken
    contradiction
  have hbefore {other : Nat} (hlive : (contended.runtime.taken loop).phase other ≠ .ended) :
      contended.runtime.phase other ≠ .ended := by
    rwa [Runtime.phase_taken] at hlive
  refine ⟨.inr ⟨rfl, loop, by rw [hnone]⟩, fun {other} hlive => .inr ?_,
    fun {other} hlive => htidy.running (hbefore hlive)⟩
  rcases htidy.live (hbefore hlive) with htaken | ⟨hmem, -⟩
  · obtain rfl : loop = other := Option.some.inj (hstored.symm.trans htaken)
    exact ⟨List.mem_cons_self, by simp [Runtime.isCancelled_taken]⟩
  · rw [hnone] at hmem
    exact absurd hmem List.not_mem_nil

/-- A stop is over, and with it the loop that it has waited for, which was the only one. -/
theorem finishStop (htidy : contended.Tidy) (hwaits : loop ∈ contended.awaited)
    (hended : contended.runtime.phase loop = .ended) :
    Tidy ⟨contended.runtime.finishStop, contended.awaited.erase loop⟩ := by
  rcases htidy.waits with hnone | ⟨hstored, waited, hwaited⟩
  · rw [hnone] at hwaits
    exact absurd hwaits List.not_mem_nil
  · obtain rfl : loop = waited := by simpa [hwaited] using hwaits
    have hall (other : Nat) : contended.runtime.phase other = .ended := by
      refine Classical.byContradiction fun hlive => ?_
      rcases htidy.live hlive with htaken | ⟨hmem, -⟩
      · rw [hstored] at htaken
        contradiction
      · rw [hwaited] at hmem
        obtain rfl := List.mem_singleton.1 hmem
        exact hlive hended
    exact ⟨.inl (by simp [hwaited]), fun {other} hlive => absurd (hall other) hlive,
      fun {other} hlive => absurd (hall other) hlive⟩

/-- A loop moves on, or ends by a fault, which it can only as the last one. -/
theorem move (htidy : contended.Tidy) (program : Program σ) (neighbors : SortedMap NodeId Payload)
    (loop : Nat) : Tidy ⟨contended.runtime.step program neighbors loop, contended.awaited⟩ := by
  rcases contended.runtime.step_cases program neighbors loop with ⟨-, hstep⟩ |
    ⟨hloop, called, phase, hstep, hloops, -, hstate⟩
  · rw [hstep]
    exact ⟨htidy.waits, htidy.live, htidy.running⟩
  have hstored := contended.runtime.stored_step program neighbors loop
  have hbefore {other : Nat}
      (hlive : (contended.runtime.step program neighbors loop).phase other ≠ .ended) :
      contended.runtime.phase other ≠ .ended := by
    by_cases hother : other = loop
    · exact hother ▸ hloop
    · rwa [Runtime.phase_step_of_ne program neighbors contended.runtime hother] at hlive
  refine ⟨htidy.waits.imp_right fun ⟨hnone, hone⟩ => ⟨hstored.trans hnone, hone⟩,
    fun {other} hlive => ?_, fun {other} hlive => ?_⟩
  · exact (htidy.live (hbefore hlive)).imp hstored.trans fun ⟨hmem, hcancelled⟩ =>
      ⟨hmem, (contended.runtime.isCancelled_step program neighbors loop other).trans hcancelled⟩
  · rcases hstate with hsame | ⟨-, rfl⟩
    · show (contended.runtime.step program neighbors loop).state = _
      rw [hstep]
      exact hsame.trans (htidy.running hloop)
    · -- the loop that has ended was the only one
      obtain rfl := htidy.unique (hbefore hlive) hloop
      have hphase : (contended.runtime.step program neighbors other).phase other ≠ .ended := hlive
      rw [hstep, Runtime.phase_moveTo (hloops ▸ Runtime.lt_length_of_phase hloop),
        if_pos rfl] at hphase
      exact absurd rfl hphase

/-- Every turn but a start that is accepted while a stop waits. -/
theorem turn (htidy : contended.Tidy) {turn : Turn} (hpatient : contended.isPatient turn = true) :
    (contended.turn program turn).Tidy := by
  rcases contended.turn_cases program turn with hsame |
    ⟨rfl, hstopped, started, hstart, hrunning, hstored, hturn⟩ | ⟨rfl, loop, hstored, hturn⟩ |
    ⟨loop, rfl, hwaits, hended, hturn⟩ | ⟨loop, neighbors, rfl, hturn⟩
  · rwa [hsame]
  · have hidle : contended.awaited = [] := by simpa [isPatient, hstopped] using hpatient
    rw [hturn]
    exact htidy.start hidle hstopped hstart hrunning hstored
  · rw [hturn]
    exact htidy.beginStop hstored
  · rw [hturn]
    exact htidy.finishStop hwaits hended
  · rw [hturn]
    exact htidy.move program neighbors loop

/-- Every run in which starts wait for stops. -/
theorem run {turns : List Turn} (htidy : contended.Tidy)
    (hpatient : contended.isPatientRun program turns = true) :
    (contended.run program turns).Tidy := by
  induction turns generalizing contended with
  | nil => exact htidy
  | cons turn later ih =>
    rw [isPatientRun, Bool.and_eq_true] at hpatient
    exact ih (htidy.turn hpatient.1) hpatient.2

end Tidy

/-- At most one loop can still come to a round, and it is the one that the next stop takes, or one
that was cancelled. -/
structure Sole (runtime : Runtime σ) : Prop where
  unique : ∀ {loop other}, runtime.mayRun loop = true → runtime.mayRun other = true → loop = other
  reached : ∀ {loop}, runtime.mayRun loop = true →
    runtime.stored = some loop ∨ runtime.isCancelled loop = true

/-- Whatever callers and loops do, as long as no start is accepted while a stop waits for a loop, at
most one loop can still come to a round, and it is the one that the next stop takes, or one that was
cancelled. -/
theorem sole_of_patient {node : NodeId} {inner : σ} {turns : List Turn}
    (hpatient : (idle node inner).isPatientRun program turns = true) :
    Sole ((idle node inner).run program turns).runtime := by
  have htidy := (Tidy.idle node inner).run hpatient
  refine ⟨fun hloop hother => ?_, fun hmay => ?_⟩
  · exact htidy.unique (Runtime.phase_ne_ended_of_mayRun hloop)
      (Runtime.phase_ne_ended_of_mayRun hother)
  · exact (htidy.live (Runtime.phase_ne_ended_of_mayRun hmay)).imp_right And.right

/-- A node whose first round fails while callers start and stop it. -/
def faltering (turns : List Turn) : Contended (List ScriptedRound) :=
  (idle ⟨"a"⟩ [.fails (.kernel "lost")]).run (.scripted none none) turns

/-- A stop waits while the round fails; the node is started again when the stop is over. -/
def inTurn : List Turn :=
  [.start, .move 0 ∅, .beginStop, .move 0 ∅, .finishStop 0, .start]

/-- The second loop is the only one. -/
theorem sole_inTurn :
    Sole (faltering inTurn).runtime ∧ (faltering inTurn).runtime.mayRun 1 = true :=
  ⟨sole_of_patient (by decide +kernel), by decide +kernel⟩

/-- The node is started again while the stop still waits, and once more when the stop is over. -/
def outOfTurn : List Turn :=
  [.start, .move 0 ∅, .beginStop, .move 0 ∅, .start, .finishStop 0, .start]

/-- Two loops can come to a round. The next stop will take the later one, and the earlier one is not
cancelled. -/
theorem two_loops_outOfTurn :
    ¬ Sole (faltering outOfTurn).runtime ∧
      (∀ loop ∈ [1, 2], (faltering outOfTurn).runtime.mayRun loop = true) ∧
        (faltering outOfTurn).runtime.stored = some 2 ∧
          (faltering outOfTurn).runtime.isCancelled 1 = false := by
  have hmay : ∀ loop ∈ [1, 2], (faltering outOfTurn).runtime.mayRun loop = true := by
    decide +kernel
  refine ⟨fun hsole => ?_, hmay, by decide +kernel, by decide +kernel⟩
  exact absurd (hsole.unique (hmay 1 (by simp)) (hmay 2 (by simp))) (by decide)

end Contended

end RegionGossip
