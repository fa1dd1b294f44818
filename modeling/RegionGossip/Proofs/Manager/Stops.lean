import RegionGossip.Proofs.Manager.Dismissals
import RegionGossip.Proofs.Wire.Stream

/-!
# Who is told of a stop

Whatever happens in between, a stop tells the neighbour of every link that was in the table when it
was called, except those that the table was told to let go of by another task. The read loops are
such tasks, and a stop cancels them before it empties the table. So a stop that nothing interrupts
tells everyone, and one that is interrupted wherever it waits may leave neighbours untold.
-/

namespace RegionGossip

/-- What a stop does from emptying the table on. -/
def Action.ofStop : Action → Bool
  | .drain _ | .close true _ | .shut true _ | .finish _ _ => true
  | _ => false

/-- A stop goes on with what a stop does, and makes no link leave. -/
theorem Manager.ofStop_perform {manager : Manager} {chance : Chance} {action : Action}
    {outcome : Outcome} (hstop : action.ofStop = true)
    (hperform : manager.perform chance action = some outcome) :
    (∀ next ∈ outcome.next, next.ofStop = true) ∧ ∀ serial, .left serial ∉ outcome.marks := by
  cases action with
  | drain session =>
    obtain rfl := Option.some.inj hperform
    simp [Action.ofStop, or_imp, forall_and]
  | close notify serial =>
    obtain ⟨link, -, ⟨-, rfl⟩ | ⟨-, rfl⟩⟩ := perform_close hperform
    · simp
    · cases notify with
      | true => simp [Action.ofStop]
      | false => contradiction
  | shut notify serial =>
    obtain rfl := Option.some.inj hperform
    simp
  | finish session serials =>
    obtain rfl := Option.some.inj hperform
    simp
  | _ => contradiction

namespace BusyManager

open Manager

variable {busy after : BusyManager} {serial : Nat}

/-! ## What happens outside the tasks -/

/-- Something happens outside the tasks that is of no concern to write halves. -/
structure Aloof (busy after : BusyManager) : Prop where
  /-- A link that was not there before has its write half, and has not asked for its place. -/
  links : ∀ {serial next}, after.manager.link? serial = some next →
    (busy.manager.link? serial = none ∧ next.writable = true ∧ next.state = .handshaking) ∨
      ∃ link, busy.manager.link? serial = some link ∧ link.Quiet next
  tasks : ∃ more, after.tasks = busy.tasks ++ more ∧
    ∀ task ∈ more, ∀ action ∈ task.actions, action.begins = true

/-- Something happens that changes no write half and makes no link. -/
theorem Aloof.of_links (change : Link → Link) (hserial : ∀ link, (change link).serial = link.serial)
    (hquiet : ∀ link, Link.Quiet link (change link))
    (hlinks : after.manager.links = busy.manager.links.map change)
    (htasks : ∃ more, after.tasks = busy.tasks ++ more ∧
      ∀ task ∈ more, ∀ action ∈ task.actions, action.begins = true) : Aloof busy after := by
  refine ⟨fun {serial next} hnext => .inr ?_, htasks⟩
  rw [link?_of_links_map hserial hlinks] at hnext
  obtain ⟨link, hlink, rfl⟩ := Option.map_eq_some_iff.1 hnext
  exact ⟨link, hlink, hquiet link⟩

/-- Every event but the turn of a task is of no concern to write halves. -/
theorem aloof_step {event : Event} (hsound : busy.Sound) (hstep : busy.step event = some after)
    (houtside : ∀ index chance, event ≠ .work index chance) : Aloof busy after := by
  have hsame {next : BusyManager} (hlinks : next.manager.links = busy.manager.links)
      (htasks : ∃ more, next.tasks = busy.tasks ++ more ∧
        ∀ task ∈ more, ∀ action ∈ task.actions, action.begins = true) : Aloof busy next :=
    .of_links id (fun _ => rfl) (fun _ => ⟨rfl, fun _ => rfl⟩) (by rw [hlinks, List.map_id]) htasks
  have hnone : ∃ more, busy.tasks = busy.tasks ++ more ∧
      ∀ task ∈ more, ∀ action ∈ task.actions, action.begins = true :=
    ⟨[], (List.append_nil _).symm, by simp⟩
  cases event with
  | start directory binds node =>
    obtain ⟨session, -, -, rfl⟩ := step_start hstep
    exact hsame rfl hnone
  | greet now number origin peer nonce =>
    obtain ⟨session, -, -, rfl, -⟩ := step_greet hstep
    have hnew := link?_nextSerial hsound.wired.numbered
    refine ⟨fun {serial next} hnext => ?_, _, rfl, by simp [Action.begins]⟩
    rw [link?_addLink hnew] at hnext
    split at hnext
    · rename_i hserial
      obtain rfl := Option.some.inj hnext
      exact .inl ⟨hserial ▸ hnew, rfl, rfl⟩
    · exact .inr ⟨next, hnext, rfl, fun _ => rfl⟩
  | arrive reached bytes ended =>
    obtain rfl := Option.some.inj hstep
    refine .of_links _ (fun link => ?_) (fun link => ?_) rfl hnone <;> split
    · rfl
    · rfl
    · exact ⟨rfl, fun _ => rfl⟩
    · exact ⟨rfl, fun _ => rfl⟩
  | broadcast payload order =>
    obtain rfl := Option.some.inj hstep
    exact hsame rfl ⟨_, rfl, by simp [Action.begins]⟩
  | reconfigure settings =>
    obtain ⟨-, rfl⟩ := step_reconfigure hstep
    exact hsame rfl hnone
  | stop =>
    obtain ⟨session, -, rfl, -⟩ := step_stop hstep
    refine .of_links _ (fun link => ?_) (fun link => ?_) rfl ⟨_, rfl, by simp [Action.begins]⟩ <;>
      split
    · rfl
    · rfl
    · exact ⟨rfl, fun _ => rfl⟩
    · exact ⟨rfl, fun _ => rfl⟩
  | work index chance => exact absurd rfl (houtside index chance)

variable {more : List Action} {marks : List Mark}

/-- Who was told stays told. -/
theorem Aloof.told (haloof : Aloof busy after) (houtside : Outside busy after more marks)
    (htold : busy.manager.Told serial) : after.manager.Told serial := by
  obtain ⟨link, hlink, hdismissed⟩ := htold
  obtain ⟨next, hnext, -⟩ := houtside.kept hlink
  rcases haloof.links hnext with ⟨hnone, -⟩ | ⟨old, hold, hquiet⟩
  · rw [hlink] at hnone
    contradiction
  · obtain rfl : link = old := Option.some.inj (hlink.symm.trans hold)
    exact ⟨next, hnext, hdismissed.of_quiet hquiet⟩

/-- Outside the tasks nobody gets anything more to say. -/
theorem Aloof.excused (haloof : Aloof busy after) (houtside : Outside busy after more marks)
    (hexcused : Excused busy.manager busy.trace serial) :
    Excused after.manager after.trace serial :=
  hexcused.imp houtside.mem_trace_of_before (haloof.told houtside)

/-- What happens outside the tasks leaves nobody untold. -/
theorem courteous_outside (hcourteous : busy.manager.Courteous busy.pending busy.trace)
    (haloof : Aloof busy after) (houtside : Outside busy after more marks) :
    after.manager.Courteous after.pending after.trace := by
  refine ⟨fun action haction {serial} hwithdraws => ?_, fun {serial next} hnext hshut => ?_,
    fun {serial next} hnext hstate => ?_, fun {serial} haccepted => ?_⟩
  · have hbefore := houtside.mem_pending (Action.begins_of_withdraws hwithdraws) haction
    exact houtside.mem_trace_of_before (hcourteous.withdrawn action hbefore hwithdraws)
  · rcases haloof.links hnext with ⟨-, hwritable, -⟩ | ⟨link, hlink, hquiet⟩
    · rw [hwritable] at hshut
      contradiction
    · have hexcused := hcourteous.shut hlink (hquiet.writable.symm.trans hshut)
      exact haloof.excused houtside hexcused
  · rcases haloof.links hnext with ⟨-, -, hhandshaking⟩ | ⟨link, hlink, -⟩
    · rw [hhandshaking] at hstate
      contradiction
    · obtain ⟨found, hfound, hpassed⟩ := houtside.kept hlink
      obtain rfl : next = found := Option.some.inj (hnext.symm.trans hfound)
      exact (hcourteous.terminated hlink (hpassed.state.symm.trans hstate)).imp
        (haloof.excused houtside) fun ⟨peer, hrefused⟩ =>
          ⟨peer, houtside.mem_trace_of_before hrefused⟩
  · obtain ⟨other, hmem⟩ := haccepted
    rw [houtside.table]
    exact (hcourteous.accepted ⟨other, houtside.mem_trace rfl hmem⟩).imp id
      (Or.imp (haloof.excused houtside)
        (Or.imp houtside.mem_pending_of_before houtside.mem_pending_of_before))

/-! ## The last step of a stop -/

/-- The last step of a stop stands behind the closing of the links that it marks as terminated. -/
def Concludes (busy : BusyManager) : Prop :=
  ∀ task ∈ busy.tasks, ∀ {front back session serials},
    task.actions = front ++ .finish session serials :: back → ∀ serial ∈ serials,
      Excused busy.manager busy.trace serial ∨ .close true serial ∈ front ∨
        .shut true serial ∈ front

/-- When the turn comes to the last step of a stop, everyone is excused. -/
theorem Concludes.excused (hconcludes : busy.Concludes) {task : Task} (htask : task ∈ busy.tasks)
    {session : Nat} {serials : List Nat} {rest : List Action}
    (hactions : task.actions = .finish session serials :: rest) (hserial : serial ∈ serials) :
    Excused busy.manager busy.trace serial := by
  have hfirst : task.actions = [] ++ .finish session serials :: rest := hactions
  simpa using hconcludes task htask hfirst serial hserial

/-- An item behind others that are different from it. -/
theorem exists_eq_append_of_not_mem {α : Type} {item : α} {first second front back : List α}
    (hother : item ∉ first) (hsplit : first ++ second = front ++ item :: back) :
    ∃ between, front = first ++ between ∧ second = between ++ item :: back := by
  rcases List.append_eq_append_iff.1 hsplit with ⟨between, hfront, hsecond⟩ | ⟨rest, hfirst, hback⟩
  · exact ⟨between, hfront, hsecond⟩
  · cases rest with
    | nil => exact ⟨[], by simp [hfirst], hback.symm⟩
    | cons head rest =>
      obtain ⟨rfl, -⟩ := List.cons.inj hback
      exact absurd (by simp [hfirst]) hother

/-- A turn of a task, told by the task. -/
theorem step_turn {index : Nat} {chance : Chance}
    (hstep : busy.step (.work index chance) = some after) :
    ∃ task action rest outcome, busy.tasks[index]? = some task ∧ task.actions = action :: rest ∧
      busy.manager.perform chance action = some outcome ∧
      after = { busy with
        manager := outcome.manager
        tasks := busy.tasks.set index { task with actions := outcome.next ++ rest }
        trace := outcome.marks ++ busy.trace } := by
  simp only [step, work, Option.bind_eq_bind, Option.bind_eq_some_iff] at hstep
  obtain ⟨task, htask, hactions⟩ := hstep
  cases hrow : task.actions with
  | nil =>
    rw [hrow] at hactions
    contradiction
  | cons action rest =>
    simp only [hrow] at hactions
    split at hactions
    · obtain ⟨outcome, hperform, hafter⟩ := Option.bind_eq_some_iff.1 hactions
      exact ⟨task, action, rest, outcome, htask, hrow, hperform, (Option.some.inj hafter).symm⟩
    · contradiction

/-- Where a task has yet to come to the last step of a stop, everyone is excused or is going to be
told first, also after its turn. -/
theorem concludes_task {task : Task} {action : Action} {rest front back : List Action}
    {chance : Chance} {outcome : Manager.Outcome} {session : Nat} {serials : List Nat}
    (hsound : busy.Sound) (hjudged : busy.manager.Judged busy.pending busy.trace)
    (hcourteous : busy.manager.Courteous busy.pending busy.trace) (hconcludes : busy.Concludes)
    (htask : task ∈ busy.tasks) (hactions : task.actions = action :: rest)
    (hperform : busy.manager.perform chance action = some outcome)
    (hsplit : outcome.next ++ rest = front ++ .finish session serials :: back)
    (hserial : serial ∈ serials) :
    Excused outcome.manager (outcome.marks ++ busy.trace) serial ∨ .close true serial ∈ front ∨
      .shut true serial ∈ front := by
  have hpending : action ∈ busy.pending :=
    List.mem_flatMap.2 ⟨task, htask, hactions ▸ List.mem_cons_self⟩
  by_cases hnext : Action.finish session serials ∈ outcome.next
  · -- the links that a stop is going to mark are those that it is going to close
    cases follows_of_next hperform hnext with
    | finish hvisited =>
      obtain rfl := Option.some.inj hperform
      rw [List.append_assoc] at hsplit
      obtain ⟨between, rfl, -⟩ := exists_eq_append_of_not_mem (by simp) hsplit
      have hvisits : serial ∈ busy.manager.visits chance.order :=
        mem_visits_iff.2 (hvisited.mem_iff.1 hserial)
      exact .inr (.inl (List.mem_append_left _ (List.mem_map_of_mem hvisits)))
  · obtain ⟨between, rfl, hrest⟩ := exists_eq_append_of_not_mem hnext hsplit
    have hbefore : task.actions = (action :: between) ++ .finish session serials :: back := by
      rw [hactions, hrest, List.cons_append]
    have haccepted : Accepted busy.trace serial :=
      hjudged.admitted (.finish session serials)
        (List.mem_flatMap.2 ⟨task, htask, by simp [hbefore]⟩) serial hserial
    rcases hconcludes task htask hbefore serial hserial with hexcused | hclose | hshut
    · exact .inl (hexcused.perform hperform)
    · rcases List.mem_cons.1 hclose with rfl | hclose
      · rcases hcourteous.excused_or_shut hjudged haccepted hperform with hexcused | hshut
        · exact .inl (hexcused.perform hperform)
        · exact .inr (.inr (List.mem_append_left _ hshut))
      · exact .inr (.inl (List.mem_append_right _ hclose))
    · rcases List.mem_cons.1 hshut with rfl | hshut
      · exact .inl (hcourteous.excused_of_shut hsound.wired hpending hperform)
      · exact .inr (.inr (List.mem_append_right _ hshut))

/-- Nobody is left untold, and stops tell everyone before their last steps. -/
structure Mannered (busy : BusyManager) : Prop where
  judged : busy.manager.Judged busy.pending busy.trace
  courteous : busy.manager.Courteous busy.pending busy.trace
  concludes : busy.Concludes

/-- A turn of a task leaves nobody untold. -/
theorem mannered_turn {index : Nat} {chance : Chance} (hsound : busy.Sound)
    (hmannered : busy.Mannered) (hstep : busy.step (.work index chance) = some after) :
    after.Mannered := by
  obtain ⟨hjudged, hcourteous, hconcludes⟩ := hmannered
  refine ⟨judged_step hsound hjudged hstep, ?_, ?_⟩
  · obtain ⟨front, action, back, outcome, hhead, hperform, hbefore, hpending, hmanager, -,
      htrace⟩ := step_work hstep
    obtain ⟨task, htask, hfirst⟩ := Option.bind_eq_some_iff.1 hhead
    obtain ⟨rest, hactions⟩ := List.head?_eq_some_iff.1 hfirst
    have hfinish : ∀ session serials, action = .finish session serials →
        ∀ serial ∈ serials, Excused busy.manager busy.trace serial := by
      rintro session serials rfl serial hserial
      exact hconcludes.excused (List.mem_of_getElem? htask) hactions hserial
    have hwired := hsound.wired
    rw [hbefore] at hwired hjudged hcourteous
    rw [hmanager, hpending, htrace]
    exact hcourteous.perform hwired hjudged hfinish hperform
  · obtain ⟨task, action, rest, outcome, htask, hactions, hperform, rfl⟩ := step_turn hstep
    intro other hother front back session serials hsplit serial hserial
    rcases List.mem_or_eq_of_mem_set hother with hold | rfl
    · exact (hconcludes other hold hsplit serial hserial).imp_left (·.perform hperform)
    · exact concludes_task hsound hjudged hcourteous hconcludes (List.mem_of_getElem? htask)
        hactions hperform hsplit hserial

/-- No event leaves anybody untold. -/
theorem mannered_step {event : Event} (hsound : busy.Sound) (hmannered : busy.Mannered)
    (hstep : busy.step event = some after) : after.Mannered := by
  by_cases hwork : ∃ index chance, event = .work index chance
  · obtain ⟨index, chance, rfl⟩ := hwork
    exact mannered_turn hsound hmannered hstep
  have hother : ∀ index chance, event ≠ .work index chance :=
    fun index chance hevent => hwork ⟨index, chance, hevent⟩
  obtain ⟨more, marks, houtside⟩ := outside_step hsound hstep hother
  have haloof := aloof_step hsound hstep hother
  obtain ⟨hjudged, hcourteous, hconcludes⟩ := hmannered
  refine ⟨judged_outside hjudged houtside, courteous_outside hcourteous haloof houtside, ?_⟩
  intro task htask front back session serials hsplit serial hserial
  obtain ⟨added, htasks, hbegins⟩ := haloof.tasks
  rw [htasks] at htask
  rcases List.mem_append.1 htask with hold | hnew
  · exact (hconcludes task hold hsplit serial hserial).imp_left (haloof.excused houtside)
  · have hfirst := hbegins task hnew (.finish session serials) (by simp [hsplit])
    contradiction

/-- After any run nobody is left untold. -/
theorem mannered_run {settings : Settings} {timing : Timing} {events : List Event}
    (hrun : (idle settings timing).run events = some busy) : busy.Mannered := by
  refine keeps_run Mannered mannered_step (sound_idle settings timing)
    ⟨judged_idle settings timing, ?_, fun _ htask => absurd htask List.not_mem_nil⟩ hrun
  constructor
  · exact fun _ haction => absurd haction List.not_mem_nil
  · exact fun hlink => absurd hlink nofun
  · exact fun hlink => absurd hlink nofun
  · rintro serial ⟨peer, hmem⟩
    exact absurd hmem List.not_mem_nil

/-! ## From the beginning of a stop -/

/-- Events in two parts. -/
theorem run_append (busy : BusyManager) (earlier later : List Event) :
    busy.run (earlier ++ later) = (busy.run earlier).bind fun middle => middle.run later := by
  induction earlier generalizing busy with
  | nil => rfl
  | cons event rest ih =>
    rw [List.cons_append, run, run, Option.bind_assoc]
    simp only [ih]

/-- A link is in the table no longer than until a stop has emptied it. -/
structure Emptying (session serial : Nat) (busy : BusyManager) : Prop where
  judged : busy.manager.Judged busy.pending busy.trace
  accepted : Accepted busy.trace serial
  drains : ∀ peer, busy.manager.table.get? peer = some serial → .drain session ∈ busy.pending

/-- No event brings back a link that a stop has taken out of the table. -/
theorem emptying_step {session : Nat} {event : Event} (hsound : busy.Sound)
    (hemptying : busy.Emptying session serial) (hstep : busy.step event = some after) :
    after.Emptying session serial := by
  obtain ⟨hjudged, haccepted, hdrains⟩ := hemptying
  rcases outside_or_turned hsound hstep with ⟨more, marks, houtside⟩ |
    ⟨front, back, action, chance, outcome, hturned⟩
  · refine ⟨judged_outside hjudged houtside, ?_, fun peer hget => ?_⟩
    · exact haccepted.imp fun _ => houtside.mem_trace_of_before
    · exact houtside.mem_pending_of_before (hdrains peer (houtside.table ▸ hget))
  · have hjudgedAfter := judged_step hsound hjudged hstep
    obtain ⟨hperform, hbefore, hpending, hmanager, htrace⟩ := hturned
    refine ⟨hjudgedAfter, htrace ▸ Judged.accepted_append haccepted, fun peer hget => ?_⟩
    rw [hmanager] at hget
    have hwired := hsound.wired
    rw [hbefore] at hwired hjudged hdrains
    rcases hwired.get?_perform hperform hget with hheld | ⟨rfl, -⟩
    · rw [hpending]
      refine mem_pending_of_ne (hdrains peer hheld) ?_
      rintro rfl
      obtain rfl := Option.some.inj hperform
      exact absurd hget nofun
    · -- a link that was accepted does not ask for its place again
      obtain ⟨other, hmem⟩ := haccepted
      exact absurd rfl (hjudged.unasked (by simp) _ hmem)

/-- A stop that has the table before it has yet to empty it of the links that are in it. -/
theorem emptying_of_stop {session : Session} (hsound : busy.Sound)
    (hjudged : busy.manager.Judged busy.pending busy.trace)
    (hsession : busy.manager.session = some session) {peer : NodeId}
    (hget : busy.manager.table.get? peer = some serial) (hstop : busy.step .stop = some after) :
    after.Emptying session.number serial := by
  have hjudgedAfter := judged_step hsound hjudged hstop
  obtain ⟨stopped, hstopped, rfl, hpending⟩ := step_stop hstop
  obtain rfl : session = stopped := Option.some.inj (hsession.symm.trans hstopped)
  refine ⟨hjudgedAfter, ?_, fun _ _ => ?_⟩
  · exact (Judged.accepted_of_held hsound.recorded hget).imp fun _ => List.mem_cons_of_mem _
  · rw [hpending]
    exact List.mem_append_right _ List.mem_cons_self

/-- Who was told stays told, whatever happens. -/
theorem told_run {events : List Event} (hsound : busy.Sound) (htold : busy.manager.Told serial)
    (hrun : busy.run events = some after) : after.manager.Told serial := by
  refine keeps_run (fun busy => busy.manager.Told serial) ?_ hsound htold hrun
  intro before event next hsound htold hstep
  by_cases hwork : ∃ index chance, event = .work index chance
  · obtain ⟨index, chance, rfl⟩ := hwork
    obtain ⟨-, action, -, outcome, -, -, hperform, rfl⟩ := step_turn hstep
    exact htold.perform hperform
  · have hother : ∀ index chance, event ≠ .work index chance :=
      fun index chance hevent => hwork ⟨index, chance, hevent⟩
    obtain ⟨more, marks, houtside⟩ := outside_step hsound hstep hother
    exact (aloof_step hsound hstep hother).told houtside htold

/-- As long as only a task of a stop gets its turn, no link leaves. -/
theorem stays_of_uninterrupted {index : Nat} {events : List Event}
    (hturns : ∀ event ∈ events, ∃ chance, event = .work index chance)
    (htask : ∃ task, busy.tasks[index]? = some task ∧ ∀ action ∈ task.actions, action.ofStop = true)
    (hstays : .left serial ∉ busy.trace) (hrun : busy.run events = some after) :
    .left serial ∉ after.trace := by
  induction events generalizing busy with
  | nil =>
    obtain rfl := Option.some.inj hrun
    exact hstays
  | cons event later ih =>
    obtain ⟨next, hstep, hlater⟩ := Option.bind_eq_some_iff.1 hrun
    obtain ⟨chance, rfl⟩ := hturns event List.mem_cons_self
    obtain ⟨task, action, rest, outcome, hindex, hactions, hperform, rfl⟩ := step_turn hstep
    obtain ⟨stopping, hstopping, hall⟩ := htask
    obtain rfl : task = stopping := Option.some.inj (hindex.symm.trans hstopping)
    rw [hactions] at hall
    obtain ⟨hnext, hmarks⟩ := ofStop_perform (hall action List.mem_cons_self) hperform
    refine ih (fun event hevent => hturns event (List.mem_cons_of_mem _ hevent)) ?_ ?_ hlater
    · have hlength := (List.getElem?_eq_some_iff.1 hindex).1
      refine ⟨_, List.getElem?_set_self hlength, fun other hother => ?_⟩
      rcases List.mem_append.1 hother with hnew | hold
      · exact hnext other hnew
      · exact hall other (List.mem_cons_of_mem _ hold)
    · rw [List.mem_append, not_or]
      exact ⟨hmarks serial, hstays⟩

/-- A stop is called after any run, and any tasks get their turns before it has emptied the table
and closed a link that was in it. Then the neighbour was told, for good, or the table was told to
let go of the link. As long as nothing but the stop gets its turn, no link leaves, and everyone is
told. -/
theorem told_of_stop {settings : Settings} {timing : Timing} {earlier during : List Event}
    {before closed : BusyManager} {session : Session}
    (hearlier : (idle settings timing).run earlier = some before)
    (hduring : (idle settings timing).run (earlier ++ .stop :: during) = some closed)
    (hsession : before.manager.session = some session)
    {peer : NodeId} (hheld : before.manager.table.get? peer = some serial)
    (hdrained : .drain session.number ∉ closed.pending)
    (hclosed : .close true serial ∉ closed.pending) (hshut : .shut true serial ∉ closed.pending) :
    (.left serial ∈ closed.trace ∨
      ∀ events after, closed.run events = some after → after.manager.Told serial) ∧
    ((∀ event ∈ during, ∃ chance, event = .work before.tasks.length chance) →
      ∀ events after, closed.run events = some after → after.manager.Told serial) := by
  have hsound := (sound_idle settings timing).run hearlier
  have hsoundClosed := (sound_idle settings timing).run hduring
  have hmannered := mannered_run hduring
  have hjudged := judged_run hearlier
  rw [run_append, hearlier, Option.bind_some] at hduring
  obtain ⟨stopping, hstop, hlater⟩ := Option.bind_eq_some_iff.1 hduring
  have hemptying := keeps_run (Emptying session.number serial) emptying_step (hsound.step hstop)
    (emptying_of_stop hsound hjudged hsession hheld hstop) hlater
  have hdone : .left serial ∈ closed.trace ∨
      ∀ events after, closed.run events = some after → after.manager.Told serial := by
    rcases hmannered.courteous.accepted hemptying.accepted with ⟨place, hget⟩ |
      (hleft | htold) | hclose | hopen
    · exact absurd (hemptying.drains place hget) hdrained
    · exact .inl hleft
    · exact .inr fun events after => told_run hsoundClosed htold
    · exact absurd hclose hclosed
    · exact absurd hopen hshut
  refine ⟨hdone, fun hturns => hdone.resolve_left ?_⟩
  have hstays := (hjudged.held hsound.recorded hheld).2.1
  obtain ⟨stopped, -, rfl, -⟩ := step_stop hstop
  refine stays_of_uninterrupted hturns ⟨_, List.getElem?_concat_length, ?_⟩ ?_ hlater
  · simp [Action.ofStop]
  · rw [List.mem_cons, not_or]
    exact ⟨nofun, hstays⟩

/-- Three neighbours get links to a node. -/
def company : List Event := [
  .start (Directory.empty.register ⟨"a"⟩ ⟨"127.0.0.1", 4000⟩) (fun _ => none) ⟨"a"⟩,
  .greet 0 0 .accepted ⟨"b"⟩ 5, .work 0 {},
  .greet 0 0 .accepted ⟨"c"⟩ 7, .work 1 {},
  .greet 0 0 .accepted ⟨"d"⟩ 9, .work 2 {}]

/-- A stop empties the table and closes the three links without being interrupted. -/
def leavetaking : List Event := List.replicate 7 (.work 3 {})

/-- All neighbours are told, and stay so. -/
theorem company_told :
    ∃ before closed, (idle {} {}).run company = some before ∧
      (idle {} {}).run (company ++ .stop :: leavetaking) = some closed ∧
      ∀ peer ∈ [⟨"b"⟩, ⟨"c"⟩, ⟨"d"⟩], ∃ serial, before.manager.table.get? peer = some serial ∧
        ∀ events after, closed.run events = some after → after.manager.Told serial := by
  have hcompany : ((idle {} {}).run company).map (fun busy =>
      (busy.manager.session.isSome, busy.tasks.length,
        [⟨"b"⟩, ⟨"c"⟩, ⟨"d"⟩].all fun peer => (busy.manager.table.get? peer).isSome)) =
      some (true, 3, true) := by
    decide +kernel
  have hleavetaking : ((idle {} {}).run (company ++ .stop :: leavetaking)).map (fun busy =>
      busy.pending.all fun
        | .drain _ | .close _ _ | .shut _ _ => false
        | _ => true) = some true := by
    decide +kernel
  obtain ⟨before, hearlier, hbefore⟩ := Option.map_eq_some_iff.1 hcompany
  obtain ⟨hexecutes, htasks, hplaces⟩ : _ ∧ _ ∧ _ := by simpa only [Prod.mk.injEq] using hbefore
  obtain ⟨session, hsession⟩ := Option.isSome_iff_exists.1 hexecutes
  obtain ⟨closed, hduring, hclosed⟩ := Option.map_eq_some_iff.1 hleavetaking
  rw [List.all_eq_true] at hplaces hclosed
  have hturns : ∀ event ∈ leavetaking, ∃ chance, event = .work before.tasks.length chance := by
    intro event hevent
    rw [htasks]
    exact ⟨_, List.eq_of_mem_replicate hevent⟩
  refine ⟨before, closed, hearlier, hduring, fun peer hpeer => ?_⟩
  obtain ⟨serial, hheld⟩ := Option.isSome_iff_exists.1 (hplaces peer hpeer)
  exact ⟨serial, hheld, (told_of_stop hearlier hduring hsession hheld
    (fun hmem => absurd (hclosed _ hmem) nofun) (fun hmem => absurd (hclosed _ hmem) nofun)
    (fun hmem => absurd (hclosed _ hmem) nofun)).2 hturns⟩

/-- A stop waits twice, for the table and for the writer of the second link. The first link is gone
from the table before it is emptied, and the task of the third one has come to its end before this
link is closed. -/
def overtaking : List Event := [
  .work 0 { reading := .cancellation }, .work 0 {}, .work 0 {},
  .work 3 {}, .work 3 {},
  .work 2 { reading := .cancellation }, .work 2 {}, .work 2 {}, .work 2 {},
  .work 3 {}, .work 3 {},
  .work 1 { reading := .cancellation }, .work 1 {}, .work 1 {}, .work 1 {},
  .work 3 {}]

/-- Where nothing was written nobody was told. -/
theorem not_told_of_silent {link : Link} (hlink : busy.manager.link? serial = some link)
    (hsilent : link.sent = []) : ¬ busy.manager.Told serial := by
  rintro ⟨found, hfound, -, settings, hsuffix⟩
  obtain rfl : link = found := Option.some.inj (hlink.symm.trans hfound)
  have hlength := hsuffix.length_le
  rw [hsilent, Wire.length_frame, List.length_nil] at hlength
  omega

/-- Three neighbours are connected when a stop is called. All tasks come to their ends, and two of
the neighbours are not told. -/
theorem overtaken_stop_leaves_untold :
    ∃ before after, (idle {} {}).run company = some before ∧
      (idle {} {}).run (company ++ .stop :: overtaking) = some after ∧ after.pending = [] ∧
      ∀ peer ∈ [⟨"b"⟩, ⟨"d"⟩], ∃ serial link, before.manager.table.get? peer = some serial ∧
        before.manager.link? serial = some link ∧ link.state = .connected ∧
        ¬ after.manager.Told serial := by
  have hcompany : ((idle {} {}).run company).map (fun busy =>
      [(⟨"b"⟩, 1), (⟨"d"⟩, 3)].all fun (peer, serial) =>
        busy.manager.table.get? peer == some serial &&
          (busy.manager.link? serial).map Link.state == some .connected) = some true := by
    decide +kernel
  have hovertaking : ((idle {} {}).run (company ++ .stop :: overtaking)).map (fun busy =>
      busy.pending.isEmpty && [1, 3].all fun serial =>
        (busy.manager.link? serial).map Link.sent == some []) = some true := by
    decide +kernel
  obtain ⟨before, hearlier, hbefore⟩ := Option.map_eq_some_iff.1 hcompany
  obtain ⟨after, hduring, hafter⟩ := Option.map_eq_some_iff.1 hovertaking
  simp only [List.all_cons, List.all_nil, Bool.and_true, Bool.and_eq_true, beq_iff_eq,
    List.isEmpty_iff, Option.map_eq_some_iff] at hbefore hafter
  obtain ⟨⟨hb, first, hfirst, hfirstState⟩, hd, third, hthird, hthirdState⟩ := hbefore
  obtain ⟨hpending, ⟨one, hone, honeSent⟩, three, hthree, hthreeSent⟩ := hafter
  refine ⟨before, after, hearlier, hduring, hpending, fun peer hpeer => ?_⟩
  rcases List.mem_cons.1 hpeer with rfl | hpeer
  · exact ⟨1, first, hb, hfirst, hfirstState, not_told_of_silent hone honeSent⟩
  · obtain rfl := List.mem_singleton.1 hpeer
    exact ⟨3, third, hd, hthird, hthirdState, not_told_of_silent hthree hthreeSent⟩

end BusyManager

end RegionGossip
