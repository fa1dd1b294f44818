import RegionGossip.Execution.Scripted
import RegionGossip.Proofs.Execution.Ledger

/-!
# What an executing node accounts for

The log of a node that one caller operates is a ledger, whatever its program does, and the node
shows the count and the last value of that ledger. A loop that is not at its end is the one that was
started last, and where it stands says what the ledger waits for. So each round is counted, handed
to the second hook and broadcast once, and after a fault nothing is called until the next start.
-/

namespace RegionGossip

variable {σ : Type}

namespace Runtime

variable {runtime : Runtime σ} {loop other : Nat} {phase : LoopPhase}

/-- A loop that moves is in its new phase, and the others are where they were. -/
theorem phase_moveTo (hstarted : loop < runtime.loops.length) (phase : LoopPhase) (other : Nat) :
    (runtime.moveTo loop phase).phase other = if other = loop then phase else runtime.phase other := by
  rw [Runtime.phase, moveTo, setLoop, List.getElem?_modify, Runtime.phase]
  by_cases hsame : loop = other
  · subst hsame
    rw [List.getElem?_eq_getElem hstarted, if_pos rfl]
    simp
  · rw [if_neg (Ne.symm hsame)]
    cases runtime.loops[other]? <;> simp [hsame]

/-- A loop that moves calls nothing by that. -/
theorem events_moveTo (runtime : Runtime σ) (loop : Nat) (phase : LoopPhase) :
    (runtime.moveTo loop phase).events = runtime.events := rfl

/-- Forgetting what was called before leaves the loops where they are. -/
theorem phase_cleared (runtime : Runtime σ) (loop : Nat) :
    ({ runtime with events := [] } : Runtime σ).phase loop = runtime.phase loop := rfl

/-- A loop that is cancelled stays where it is, and so do the others. -/
theorem phase_cancel (runtime : Runtime σ) (loop other : Nat) :
    (runtime.setLoop loop fun task => { task with cancelled := true }).phase other =
      runtime.phase other := by
  rw [phase, setLoop, List.getElem?_modify, phase]
  cases runtime.loops[other]? with
  | none => rfl
  | some task => by_cases hsame : loop = other <;> simp [hsame]

/-- A start puts one loop after the others, at the top of its first cycle. -/
theorem phase_start {started : Runtime σ} (hstart : runtime.start = .ok started) (loop : Nat) :
    started.phase loop = if loop = runtime.loops.length then .top else runtime.phase loop := by
  rw [start] at hstart
  split at hstart
  · contradiction
  · obtain rfl := Except.ok.inj hstart
    rw [phase, phase]
    by_cases hlast : loop = runtime.loops.length
    · rw [if_pos hlast, hlast, List.getElem?_concat_length]
    · rw [if_neg hlast]
      rcases Nat.lt_or_gt_of_ne hlast with hold | hnew
      · rw [List.getElem?_append_left hold]
      · rw [List.getElem?_eq_none (by simpa using Nat.succ_le_of_lt hnew),
          List.getElem?_eq_none (Nat.le_of_lt hnew)]

/-- A start is refused exactly when the node runs. -/
theorem start_cases (runtime : Runtime σ) :
    (runtime.state = .running ∧
      runtime.start = .error (.illegalState (.alreadyExecuting runtime.node.name))) ∨
    (runtime.state ≠ .running ∧
      runtime.start = .ok { runtime with
        state := .running
        lastError := none
        loops := runtime.loops ++ [⟨.top, false⟩]
        stored := some runtime.loops.length }) := by
  by_cases hrunning : runtime.state = .running
  · exact .inl ⟨hrunning, if_pos hrunning⟩
  · exact .inr ⟨hrunning, if_neg hrunning⟩

/-- A loop that is not at its end was started. -/
theorem lt_length_of_phase (hphase : runtime.phase loop ≠ .ended) : loop < runtime.loops.length := by
  refine Nat.lt_of_not_le fun hlarge => ?_
  rw [phase, List.getElem?_eq_none hlarge] at hphase
  exact hphase rfl

end Runtime

/-- What the account of a node waits for while a loop is in a phase. -/
def LoopPhase.stage : LoopPhase → AccountStage
  | .began _ => .begun
  | .completed outbound => .due outbound
  | .panicked => .failed .loopPanicked
  | _ => .quiet

namespace Operated

open ExecutionMark

variable {program : Program σ} {operated : Operated σ} {account : Account} {loop : Nat}

/-- The calls that a step makes, made again one after the other, leave the foreign code where the
step leaves it, so the log says what really came of them. -/
theorem inner_move (program : Program σ) (operated : Operated σ) (loop : Nat)
    (neighbors : SortedMap NodeId Payload) :
    (operated.move program loop neighbors).runtime.inner =
      (program.replay operated.runtime.node operated.runtime.inner
        (operated.move program loop neighbors).runtime.events).2 := by
  simp only [move, Runtime.step]
  split
  · simp only [Runtime.stepTop]
    split
    · rfl
    · split <;> rfl
  · simp only [Runtime.stepRound]
    split
    · simp only [Runtime.complete]
      split <;> rfl
    · rfl
    · rfl
  · rfl
  · split <;> rfl
  · rfl
  · rfl

/-- A node keeps an account: its log leads to it, the count and the value are shown, and the stage
is that of the loop that was started last, or one where no loop is left. -/
structure Keeps (operated : Operated σ) (account : Account) : Prop where
  ledger : Ledger operated.log account
  executions : operated.runtime.executions = account.count
  localValue : operated.runtime.localValue = account.value
  stored : ∀ loop ∈ operated.runtime.stored, loop + 1 = operated.runtime.loops.length
  awaited : ∀ loop ∈ operated.awaited, loop + 1 = operated.runtime.loops.length
  live : ∀ {loop}, operated.runtime.phase loop ≠ .ended →
    loop + 1 = operated.runtime.loops.length ∧ operated.runtime.state = .running ∧
      account.stage = (operated.runtime.phase loop).stage
  round : ∀ {loop round}, operated.runtime.phase loop = .began round → round = account.count
  ended : (∀ loop, operated.runtime.phase loop = .ended) → account.stage = .quiet ∨
    ∃ fault, account.stage = .failed fault ∧ operated.runtime.state = .stopped ∧
      operated.runtime.lastError = some fault

/-- A loop that has completed a round broadcasts its payload. -/
theorem move_of_completed {outbound : Payload}
    (hphase : operated.runtime.phase loop = .completed outbound)
    (neighbors : SortedMap NodeId Payload) :
    operated.move program loop neighbors =
      ⟨(({ operated.runtime with events := [] }).record (.broadcast outbound)).moveTo loop .sleeping,
        operated.awaited, .broadcast outbound :: operated.log⟩ := by
  simp only [move, Runtime.step, Runtime.phase_cleared, hphase]
  rfl

/-- A panic in a loop is recorded, and nothing is called. -/
theorem move_of_panicked (hphase : operated.runtime.phase loop = .panicked)
    (neighbors : SortedMap NodeId Payload) :
    operated.move program loop neighbors =
      ⟨({ operated.runtime with events := [] }).fail loop .loopPanicked, operated.awaited,
        operated.log⟩ := by
  simp only [move, Runtime.step, Runtime.phase_cleared, hphase]
  rfl

namespace Keeps

/-- A node that has not executed yet keeps a blank account. -/
theorem idle (node : NodeId) (inner : σ) : (Operated.idle node inner).Keeps .blank where
  ledger := .blank
  executions := rfl
  localValue := rfl
  stored _ hstored := nomatch hstored
  awaited _ hawaited := nomatch hawaited
  live hlive := absurd rfl hlive
  round hphase := nomatch hphase
  ended _ := .inl rfl

/-- While a loop is not at its end the node runs, and the stage is that of the loop. -/
theorem stage_eq (hkeeps : operated.Keeps account) {phase : LoopPhase}
    (hphase : operated.runtime.phase loop = phase) (hunfinished : phase ≠ .ended) :
    operated.runtime.phase loop ≠ .ended ∧ operated.runtime.state = .running ∧
      account.stage = phase.stage := by
  subst hphase
  exact ⟨hunfinished, (hkeeps.live hunfinished).2⟩

/-- A loop that moves, together with what it enters, keeps an account if the account fits its new
phase. -/
theorem moveTo (hkeeps : operated.Keeps account) (hlive : operated.runtime.phase loop ≠ .ended)
    {runtime : Runtime σ} {phase : LoopPhase} {log : List ExecutionMark} {next : Account}
    (hloops : runtime.loops = operated.runtime.loops)
    (hstored : runtime.stored = operated.runtime.stored) (hledger : Ledger log next)
    (hexecutions : runtime.executions = next.count) (hvalue : runtime.localValue = next.value)
    (hphase : phase ≠ .ended → runtime.state = .running ∧ next.stage = phase.stage)
    (hround : ∀ round, phase = .began round → round = next.count)
    (hended : phase = .ended → next.stage = .quiet ∨ ∃ fault, next.stage = .failed fault ∧
      runtime.state = .stopped ∧ runtime.lastError = some fault) :
    Keeps ⟨runtime.moveTo loop phase, operated.awaited, log⟩ next := by
  have hlast := (hkeeps.live hlive).1
  have hstarted : loop < runtime.loops.length := hloops ▸ Runtime.lt_length_of_phase hlive
  have hlength : (runtime.moveTo loop phase).loops.length = operated.runtime.loops.length := by
    rw [Runtime.moveTo, Runtime.setLoop, List.length_modify, hloops]
  have hthis : (runtime.moveTo loop phase).phase loop = phase := by
    rw [Runtime.phase_moveTo hstarted, if_pos rfl]
  -- every other loop has ended, because this one was started last
  have hother {other : Nat} (hne : other ≠ loop) :
      (runtime.moveTo loop phase).phase other = .ended := by
    rw [Runtime.phase_moveTo hstarted, if_neg hne, Runtime.phase, hloops]
    refine Classical.byContradiction fun hunfinished => hne ?_
    have hlatest : other + 1 = operated.runtime.loops.length := (hkeeps.live hunfinished).1
    omega
  have heq {other : Nat} (hunfinished : (runtime.moveTo loop phase).phase other ≠ .ended) :
      other = loop := Classical.byContradiction fun hne => hunfinished (hother hne)
  exact {
    ledger := hledger
    executions := hexecutions
    localValue := hvalue
    stored := fun stored hmem => hlength ▸ hkeeps.stored stored (hstored ▸ hmem)
    awaited := fun awaited hmem => hlength ▸ hkeeps.awaited awaited hmem
    live := fun hunfinished => by
      obtain rfl := heq hunfinished
      have hphases := hthis
      rw [hphases] at hunfinished
      obtain ⟨hrunning, hstage⟩ := hphase hunfinished
      exact ⟨hlength ▸ hlast, hrunning, hstage.trans (congrArg LoopPhase.stage hthis.symm)⟩
    round := fun {other round} hbegan => by
      obtain rfl : other = loop := heq (by rw [hbegan]; exact nofun)
      exact hround round (hthis ▸ hbegan)
    ended := fun hall => hended (hthis ▸ hall loop) }

/-- The top of a cycle: the first hook is called with the count. -/
theorem moveTop (hkeeps : operated.Keeps account) (hphase : operated.runtime.phase loop = .top)
    (neighbors : SortedMap NodeId Payload) :
    ∃ next, (operated.move program loop neighbors).Keeps next := by
  obtain ⟨hlive, hrunning, hstage⟩ := hkeeps.stage_eq hphase nofun
  obtain ⟨count, value, stage⟩ := account
  obtain rfl : stage = .quiet := hstage
  have hexecutions : operated.runtime.executions = count := hkeeps.executions
  simp only [move, Runtime.step, Runtime.phase_cleared, hphase, Runtime.stepTop]
  split
  · exact ⟨_, hkeeps.moveTo hlive rfl rfl hkeeps.ledger hkeeps.executions hkeeps.localValue nofun
      nofun fun _ => .inl rfl⟩
  · cases hcall : program.before operated.runtime.node operated.runtime.executions
      operated.runtime.inner with
    | mk outcome inner =>
      cases outcome <;> simp only [hcall, Runtime.events_moveTo, Runtime.record, Program.replay,
        Program.perform] <;> rw [hexecutions]
      case returned =>
        refine ⟨⟨count, value, .begun⟩, hkeeps.moveTo hlive rfl rfl (hkeeps.ledger.enter .before)
          rfl hkeeps.localValue (fun _ => ⟨hrunning, rfl⟩) ?_ nofun⟩
        rintro round ⟨⟩
        exact rfl
      case panicked =>
        exact ⟨⟨count, value, .failed .loopPanicked⟩, hkeeps.moveTo hlive rfl rfl
          (hkeeps.ledger.enter .beforePanicked) rfl hkeeps.localValue (fun _ => ⟨hrunning, rfl⟩)
          nofun nofun⟩

/-- The round: its result is counted and the second hook is called, or the loop ends. -/
theorem moveRound (hkeeps : operated.Keeps account) {round : Nat}
    (hphase : operated.runtime.phase loop = .began round) (neighbors : SortedMap NodeId Payload) :
    ∃ next, (operated.move program loop neighbors).Keeps next := by
  obtain ⟨hlive, hrunning, hstage⟩ := hkeeps.stage_eq hphase nofun
  obtain ⟨count, value, stage⟩ := account
  obtain rfl : stage = .begun := hstage
  obtain rfl : round = count := hkeeps.round hphase
  have hexecutions : operated.runtime.executions = round := hkeeps.executions
  cases hcall : program.round ⟨operated.runtime.node, round, neighbors⟩ operated.runtime.inner with
  | mk outcome inner =>
    rcases outcome with (error | output) | _ <;>
      simp only [move, Runtime.step, Runtime.phase_cleared, hphase, Runtime.stepRound, hcall,
        Runtime.fail, Runtime.events_moveTo, Runtime.record, Program.replay, Program.perform]
    · exact ⟨⟨round, value, .failed (.failed error)⟩, hkeeps.moveTo hlive rfl rfl
        (hkeeps.ledger.enter .roundFailed) hexecutions hkeeps.localValue nofun nofun
        fun _ => .inr ⟨_, rfl, rfl, rfl⟩⟩
    · have hround : Ledger (.round round neighbors (.returned (.ok output)) :: operated.log)
          ⟨round + 1, output.localValue, .returned output⟩ := hkeeps.ledger.enter .round
      cases hafter : program.after operated.runtime.node (operated.runtime.executions + 1)
        output.localValue inner with
      | mk outcome inner =>
        cases outcome <;> simp only [Runtime.complete, hcall, hafter, Runtime.events_moveTo,
          Runtime.record, Program.replay, Program.perform] <;> rw [hexecutions]
        case returned =>
          exact ⟨⟨round + 1, output.localValue, .due output.outbound⟩, hkeeps.moveTo hlive rfl rfl
            (hround.enter .after) rfl rfl (fun _ => ⟨hrunning, rfl⟩) nofun nofun⟩
        case panicked =>
          exact ⟨⟨round + 1, output.localValue, .failed .loopPanicked⟩,
            hkeeps.moveTo hlive rfl rfl (hround.enter .afterPanicked) rfl rfl
            (fun _ => ⟨hrunning, rfl⟩) nofun nofun⟩
    · exact ⟨⟨round, value, .failed .roundPanicked⟩, hkeeps.moveTo hlive rfl rfl
        (hkeeps.ledger.enter .roundPanicked) hexecutions hkeeps.localValue nofun nofun
        fun _ => .inr ⟨_, rfl, rfl, rfl⟩⟩

/-- A loop moves on, wherever it is. -/
theorem move (hkeeps : operated.Keeps account) (loop : Nat)
    (neighbors : SortedMap NodeId Payload) :
    ∃ next, (operated.move program loop neighbors).Keeps next := by
  cases hphase : operated.runtime.phase loop with
  | top => exact hkeeps.moveTop hphase neighbors
  | began round => exact hkeeps.moveRound hphase neighbors
  | completed outbound =>
    obtain ⟨hlive, hrunning, hstage⟩ := hkeeps.stage_eq hphase nofun
    obtain ⟨count, value, stage⟩ := account
    obtain rfl : stage = .due outbound := hstage
    rw [move_of_completed hphase]
    exact ⟨⟨count, value, .quiet⟩, hkeeps.moveTo hlive rfl rfl (hkeeps.ledger.enter .broadcast)
      hkeeps.executions hkeeps.localValue (fun _ => ⟨hrunning, rfl⟩) nofun nofun⟩
  | sleeping =>
    obtain ⟨hlive, hrunning, hstage⟩ := hkeeps.stage_eq hphase nofun
    simp only [Operated.move, Runtime.step, Runtime.phase_cleared, hphase]
    split
    · exact ⟨account, hkeeps.moveTo hlive rfl rfl hkeeps.ledger hkeeps.executions hkeeps.localValue
        nofun nofun fun _ => .inl hstage⟩
    · exact ⟨account, hkeeps.moveTo hlive rfl rfl hkeeps.ledger hkeeps.executions hkeeps.localValue
        (fun _ => ⟨hrunning, hstage⟩) nofun nofun⟩
  | panicked =>
    obtain ⟨hlive, -, hstage⟩ := hkeeps.stage_eq hphase nofun
    rw [move_of_panicked hphase]
    exact ⟨account, hkeeps.moveTo hlive rfl rfl hkeeps.ledger hkeeps.executions hkeeps.localValue
      nofun nofun fun _ => .inr ⟨_, hstage, rfl, rfl⟩⟩
  | ended =>
    simp only [Operated.move, Runtime.step, Runtime.phase_cleared, hphase]
    exact ⟨account, { hkeeps with }⟩

/-- A start, whether it is refused or not, by a caller who waits for no loop. -/
theorem start (hkeeps : operated.Keeps account) (hidle : operated.awaited = none) :
    ∃ next, operated.start.2.Keeps next := by
  rcases operated.runtime.start_cases with ⟨hrunning, hstart⟩ | ⟨hstopped, hstart⟩
  · simp only [Operated.start, hstart]
    exact ⟨account, hkeeps⟩
  · have hphase := Runtime.phase_start hstart
    have hended (loop : Nat) : operated.runtime.phase loop = .ended :=
      Classical.byContradiction fun hlive => hstopped (hkeeps.live hlive).2.1
    simp only [Operated.start, hstart]
    simp only [hended] at hphase
    have hledger : Ledger (.started :: operated.log) { account with stage := .quiet } := by
      obtain ⟨count, value, stage⟩ := account
      rcases hkeeps.ended hended with hquiet | ⟨fault, hfailed, -⟩
      · obtain rfl : stage = .quiet := hquiet
        exact hkeeps.ledger.enter .started
      · obtain rfl : stage = .failed fault := hfailed
        exact hkeeps.ledger.enter .restarted
    refine ⟨_, hledger, hkeeps.executions, hkeeps.localValue, ?_, ?_, fun {loop} hlive => ?_,
      fun {loop round} hbegan => ?_, fun _ => .inl rfl⟩
    · rintro loop ⟨⟩
      simp
    · rw [hidle]
      exact nofun
    · rw [hphase] at hlive ⊢
      split at hlive
      · rename_i hlast
        rw [if_pos hlast]
        exact ⟨by simp [hlast], rfl, rfl⟩
      · contradiction
    · rw [hphase] at hbegan
      split at hbegan <;> contradiction

/-- The first half of a stop. -/
theorem beginStop (hkeeps : operated.Keeps account) : operated.beginStop.Keeps account := by
  rw [Operated.beginStop, Runtime.beginStop]
  cases hstored : operated.runtime.stored with
  | none => exact hkeeps
  | some stored =>
    have hphase := ({ operated.runtime with stored := none } : Runtime σ).phase_cancel stored
    have hlength : (({ operated.runtime with stored := none } : Runtime σ).setLoop stored fun task =>
        { task with cancelled := true }).loops.length = operated.runtime.loops.length :=
      List.length_modify _ _ _
    exact {
      ledger := hkeeps.ledger
      executions := hkeeps.executions
      localValue := hkeeps.localValue
      stored := nofun
      awaited := by
        rintro loop ⟨⟩
        exact (hkeeps.stored stored hstored).trans hlength.symm
      live := fun {loop} hlive => by
        have hsame := hphase loop
        have hold := hkeeps.live (hsame ▸ hlive)
        exact ⟨hold.1.trans hlength.symm, hold.2.1,
          hold.2.2.trans (congrArg LoopPhase.stage hsame.symm)⟩
      round := fun {loop round} hbegan => hkeeps.round ((hphase loop).symm.trans hbegan)
      ended := fun hall => hkeeps.ended fun loop => (hphase loop).symm.trans (hall loop) }

/-- The second half of a stop: the loop that it waited for was the last one. -/
theorem finishStop (hkeeps : operated.Keeps account) : operated.finishStop.Keeps account := by
  rw [Operated.finishStop]
  split
  · rename_i awaited hawaited
    split
    · rename_i hended
      have hall (loop : Nat) : operated.runtime.phase loop = .ended := by
        refine Classical.byContradiction fun hlive => hlive ?_
        have hlast := (hkeeps.live hlive).1
        have hwaited := hkeeps.awaited awaited hawaited
        obtain rfl : loop = awaited := by omega
        exact hended
      exact {
        ledger := hkeeps.ledger
        executions := hkeeps.executions
        localValue := hkeeps.localValue
        stored := hkeeps.stored
        awaited := nofun
        live := fun hlive => absurd (hall _) hlive
        round := hkeeps.round
        ended := fun _ => (hkeeps.ended hall).imp_right fun ⟨fault, hfailed, _, herror⟩ =>
          ⟨fault, hfailed, rfl, herror⟩ }
    · exact hkeeps
  · exact hkeeps

/-- Whatever happens next. -/
theorem turn (hkeeps : operated.Keeps account) (turn : Turn) :
    ∃ next, (operated.turn program turn).Keeps next := by
  cases turn with
  | start =>
    rw [Operated.turn]
    split
    · exact ⟨account, hkeeps⟩
    · rename_i hidle
      exact hkeeps.start (by simpa using hidle)
  | beginStop =>
    rw [Operated.turn]
    split
    · exact ⟨account, hkeeps⟩
    · exact ⟨account, hkeeps.beginStop⟩
  | finishStop => exact ⟨account, hkeeps.finishStop⟩
  | move loop neighbors => exact hkeeps.move loop neighbors

/-- Whatever happens. -/
theorem run (hkeeps : operated.Keeps account) (turns : List Turn) :
    ∃ next, (operated.run program turns).Keeps next := by
  induction turns generalizing operated account with
  | nil => exact ⟨account, hkeeps⟩
  | cons turn later ih =>
    obtain ⟨next, hnext⟩ := hkeeps.turn turn
    exact ih hnext

/-- A loop calls the second hook in the step of the round, so no account waits for it in between. -/
theorem stage_ne_returned (hkeeps : operated.Keeps account) (output : RoundOutput) :
    account.stage ≠ .returned output := by
  by_cases hended : ∀ loop, operated.runtime.phase loop = .ended
  · rcases hkeeps.ended hended with hstage | ⟨fault, hstage, -⟩ <;> rw [hstage] <;> exact nofun
  · obtain ⟨loop, hlive⟩ := Classical.not_forall.1 hended
    rw [(hkeeps.live hlive).2.2]
    cases operated.runtime.phase loop <;> exact nofun

/-- An account that waits for a broadcast is that of a loop that does this next. -/
theorem exists_completed {outbound : Payload} (hkeeps : operated.Keeps account)
    (hstage : account.stage = .due outbound) :
    ∃ loop, operated.runtime.phase loop = .completed outbound := by
  by_cases hended : ∀ loop, operated.runtime.phase loop = .ended
  · rcases hkeeps.ended hended with hquiet | ⟨fault, hfailed, -⟩ <;> simp_all
  · obtain ⟨loop, hlive⟩ := Classical.not_forall.1 hended
    refine ⟨loop, ?_⟩
    have hphase := hstage.symm.trans (hkeeps.live hlive).2.2
    cases hloop : operated.runtime.phase loop <;> rw [hloop] at hphase <;>
      first | contradiction | rw [AccountStage.due.inj hphase]

/-- After a fault the node is stopped and shows it, or a loop records next that it has panicked. -/
theorem stopped_or_panicked {fault : ExecutionFault} (hkeeps : operated.Keeps account)
    (hstage : account.stage = .failed fault) :
    (operated.runtime.state = .stopped ∧ operated.runtime.lastError = some fault) ∨
      ∃ loop, operated.runtime.phase loop = .panicked ∧ fault = .loopPanicked := by
  by_cases hended : ∀ loop, operated.runtime.phase loop = .ended
  · rcases hkeeps.ended hended with hquiet | ⟨shown, hfailed, hstopped, herror⟩
    · simp_all
    · obtain rfl := AccountStage.failed.inj (hstage.symm.trans hfailed)
      exact .inl ⟨hstopped, herror⟩
  · obtain ⟨loop, hlive⟩ := Classical.not_forall.1 hended
    refine .inr ⟨loop, ?_⟩
    have hphase := hstage.symm.trans (hkeeps.live hlive).2.2
    cases hloop : operated.runtime.phase loop <;> rw [hloop] at hphase <;>
      first | contradiction | exact ⟨rfl, AccountStage.failed.inj hphase⟩

end Keeps

/-- What the log of a node, the latest entry first, says of what the node shows and does. -/
structure Accounts (program : Program σ) (operated : Operated σ) : Prop where
  /-- The count is the number of rounds that returned a result. -/
  executions : operated.runtime.executions = (outputs operated.log).length
  /-- The value is that of the last of these rounds. -/
  localValue : operated.runtime.localValue =
    ((outputs operated.log).head?.map RoundOutput.localValue).getD .null
  /-- Each round is given the number of those that had returned a result before. -/
  round : ∀ {later round neighbors outcome earlier},
    operated.log = later ++ .round round neighbors outcome :: earlier →
      round = (outputs earlier).length
  /-- A round that returned a result is directly followed by the second hook, with the new count. -/
  after_round : ∀ {later round neighbors output earlier},
    operated.log = later ++ .round round neighbors (.returned (.ok output)) :: earlier →
      ∃ rest outcome, later = rest ++ [.after (round + 1) output.localValue outcome]
  /-- The second hook is called directly after a round that returned a result. -/
  round_after : ∀ {later count value outcome earlier},
    operated.log = later ++ .after count value outcome :: earlier →
      ∃ round neighbors output rest,
        earlier = .round round neighbors (.returned (.ok output)) :: rest ∧
          count = round + 1 ∧ value = output.localValue
  /-- The payloads of the rounds after which the second hook returned, and no others, have been
  broadcast once and in order; the last one may be what a loop does next. -/
  broadcast : published operated.log = due operated.log ∨
    ∃ loop outbound, due operated.log = outbound :: published operated.log ∧
      ∀ neighbors, (operated.move program loop neighbors).log = .broadcast outbound :: operated.log
  /-- A call that fails or panics, other than the second hook, leaves the count and the value alone
  and broadcasts nothing. -/
  failed : ∀ {loop neighbors mark fault},
    (operated.move program loop neighbors).log = mark :: operated.log → mark.fault? = some fault →
      (operated.move program loop neighbors).runtime.executions = operated.runtime.executions ∧
        (operated.move program loop neighbors).runtime.localValue = operated.runtime.localValue ∧
        published (operated.move program loop neighbors).log = published operated.log
  /-- After a fault nothing is called until the next start. Until then the node is stopped and shows
  the fault, once the loop has recorded it; a panic in a hook takes the loop one more step. -/
  fault : ∀ {later mark earlier fault}, operated.log = later ++ mark :: earlier →
    mark.fault? = some fault →
      (∃ rest, later = rest ++ [.started]) ∨
        later = [] ∧ ((operated.runtime.state = .stopped ∧
          operated.runtime.lastError = some fault) ∨
            ∃ loop, ∀ neighbors, (operated.move program loop neighbors).log = operated.log ∧
              (operated.move program loop neighbors).runtime.state = .stopped ∧
              (operated.move program loop neighbors).runtime.lastError = some fault)
  /-- A start is refused exactly when the node runs, and then nothing changes. -/
  start : (∃ error, operated.start.1 = .error error) ↔ operated.runtime.state = .running
  refused : operated.runtime.state = .running → operated.start.2 = operated

/-- A node that keeps an account accounts for what it does. -/
theorem Keeps.accounts (hkeeps : operated.Keeps account) : operated.Accounts program where
  executions := hkeeps.executions.trans hkeeps.ledger.count_eq
  localValue := hkeeps.localValue.trans hkeeps.ledger.value_eq
  round hlog := by
    obtain ⟨_, hledger⟩ := (hlog ▸ hkeeps.ledger).suffix
    exact hledger.round_eq
  after_round {later round neighbors output earlier} hlog := by
    have hledger := hlog ▸ hkeeps.ledger
    rcases later.eq_nil_or_concat with rfl | ⟨rest, next, rfl⟩
    · exact absurd (hledger.stage_of_output rfl) (hkeeps.stage_ne_returned output)
    · rw [List.concat_eq_append] at hledger ⊢
      rw [List.append_assoc] at hledger
      obtain ⟨_, hsuffix⟩ := hledger.suffix
      obtain ⟨outcome, rfl⟩ := hsuffix.exists_after
      exact ⟨rest, outcome, rfl⟩
  round_after hlog := by
    obtain ⟨_, hledger⟩ := (hlog ▸ hkeeps.ledger).suffix
    exact hledger.exists_round_of_after
  broadcast := by
    rw [hkeeps.ledger.due_eq, Account.pending]
    split
    · rename_i outbound hstage
      obtain ⟨loop, hphase⟩ := hkeeps.exists_completed hstage
      exact .inr ⟨loop, outbound, rfl, fun neighbors => by rw [move_of_completed hphase]⟩
    · exact .inl rfl
  failed {loop neighbors mark fault} hlog hfault := by
    obtain ⟨next, hnext⟩ : ∃ next, (operated.move program loop neighbors).Keeps next :=
      hkeeps.move loop neighbors
    obtain ⟨houtput, hpayload⟩ := nothing_of_fault hfault
    have houtputs : outputs (mark :: operated.log) = outputs operated.log :=
      List.filterMap_cons_none houtput
    refine ⟨?_, ?_, ?_⟩
    · rw [hnext.executions, hkeeps.executions, hnext.ledger.count_eq, hkeeps.ledger.count_eq, hlog,
        houtputs]
    · rw [hnext.localValue, hkeeps.localValue, hnext.ledger.value_eq, hkeeps.ledger.value_eq, hlog,
        houtputs]
    · rw [hlog]
      exact List.filterMap_cons_none hpayload
  fault {later mark earlier fault} hlog hfault := by
    have hledger := hlog ▸ hkeeps.ledger
    rcases later.eq_nil_or_concat with rfl | ⟨rest, next, rfl⟩
    · refine .inr ⟨rfl, ?_⟩
      rcases hkeeps.stopped_or_panicked (hledger.stage_of_fault hfault) with
        hstopped | ⟨loop, hphase, rfl⟩
      · exact .inl hstopped
      · refine .inr ⟨loop, fun neighbors => ?_⟩
        rw [move_of_panicked hphase]
        exact ⟨rfl, rfl, rfl⟩
    · rw [List.concat_eq_append] at hledger ⊢
      rw [List.append_assoc] at hledger
      obtain ⟨_, hsuffix⟩ := hledger.suffix
      exact .inl ⟨rest, by rw [hsuffix.eq_started hfault]⟩
  start := by
    rcases operated.runtime.start_cases with ⟨hrunning, hstart⟩ | ⟨hstopped, hstart⟩
    · simp [Operated.start, hstart, hrunning]
    · simp [Operated.start, hstart, hstopped]
  refused hrunning := by
    rcases operated.runtime.start_cases with ⟨-, hstart⟩ | ⟨hstopped, -⟩
    · simp only [Operated.start, hstart]
    · exact absurd hrunning hstopped

/-- Whatever the rounds and the hooks of a program do, whatever the neighbours send, and whenever
one caller starts and stops a node, the node accounts for what it does. -/
theorem accounts_run (program : Program σ) (node : NodeId) (inner : σ) (turns : List Turn) :
    ((idle node inner).run program turns).Accounts program := by
  obtain ⟨account, hkeeps⟩ : ∃ account, ((idle node inner).run program turns).Keeps account :=
    (Keeps.idle node inner).run turns
  exact hkeeps.accounts

/-- A start and some steps of the loop that it started. -/
def session (loop steps : Nat) : List Turn := .start :: List.replicate steps (.move loop ∅)

/-- One round returns, the next one fails, and after a restart one returns but the hook after it
panics: two rounds are counted, one payload is broadcast, and the node is stopped with its last
fault. -/
theorem restart_accounts :
    let program := Program.scripted none (some 2)
    let script : List ScriptedRound :=
      [.returns (.bool true), .fails (.kernel "boom"), .returns (.bool false)]
    let operated := (idle ⟨"n1"⟩ script).run program (session 0 6 ++ session 1 3)
    operated.Accounts program ∧ operated.runtime.executions = 2 ∧
      operated.runtime.localValue = .bool false ∧ operated.runtime.state = .stopped ∧
      operated.runtime.lastError = some .loopPanicked ∧
      published operated.log = [Payload.empty] :=
  ⟨accounts_run _ _ _ _, rfl, rfl, rfl, rfl, rfl⟩

end Operated

end RegionGossip
