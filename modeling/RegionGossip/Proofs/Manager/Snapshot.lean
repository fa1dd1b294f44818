import RegionGossip.Proofs.Manager.Reading
import RegionGossip.Proofs.Manager.Verdicts
import RegionGossip.Proofs.SortedMap.Update

/-!
# The snapshot

Every link has read a row of shares from the front of its stream and keeps the payload of the last
one; its read loop goes on to the first frame that is no share, ends there for the reason that it
finds, and leaves the rest alone. The snapshot has of each neighbour what the link keeps that holds
the neighbour's place, as long as this link is connected. Such a link was never refused, no other
link was accepted for the neighbour since, and it has not left; if its read loop has ended, it is
about to leave.
-/

namespace RegionGossip

namespace Link

variable {link : Link} {chance : Chance}

/-- A running read loop that is not told anything else takes a frame. -/
theorem readOnce_eq_takeFrame (hrunning : link.readLoop = .running)
    (hframe : chance.reading = .frame) : link.readOnce chance = link.takeFrame chance.now := by
  rw [readOnce, hrunning, hframe]

end Link

namespace Manager

/-- The snapshot has of a neighbour what the connected link in its place has stored last. -/
theorem get?_snapshot (manager : Manager) (peer : NodeId) (payload : Payload) :
    manager.snapshot.get? peer = some payload ↔
      ∃ link, manager.entry? peer = some link ∧ link.state = .connected ∧
        link.latest = some payload := by
  have hvalue (serial : Nat) :
      ((manager.link? serial).bind fun link =>
        if link.state = .connected then link.latest else none) = some payload ↔
        ∃ link, manager.link? serial = some link ∧ link.state = .connected ∧
          link.latest = some payload := by
    simp [Option.bind_eq_some_iff]
  have hget := manager.table.get?_filterMap (fun serial => (manager.link? serial).bind fun link =>
    if link.state = .connected then link.latest else none) peer
  rw [Manager.entry?]
  cases hholder : manager.table.get? peer with
  | none =>
    rw [hholder] at hget
    simp [snapshot, hget]
  | some serial =>
    rw [hholder, Option.bind_some] at hget
    rw [Option.bind_some, ← hvalue, ← hget]
    rfl

end Manager

namespace BusyManager

open Wire (Unfinished)

variable {busy after : BusyManager} {index serial : Nat} {task : Task} {more : List Action}
  {link read : Link} {chance : Chance}

/-! ## Turns of a read loop -/

/-- A turn of a read loop, told by what it does to its link. -/
theorem step_read (htask : busy.tasks[index]? = some task)
    (hactions : task.actions = .read serial :: more) (hlink : busy.manager.link? serial = some link)
    (hread : link.readOnce chance = some read) :
    ∃ after, busy.step (.work index chance) = some after ∧
      after.manager.link? serial = some read ∧
      (read.readLoop = .running → after.tasks[index]? = some task) := by
  have hfound : (busy.manager.modifyLink serial fun link =>
      (link.readOnce chance).getD link).link? serial = some read := by
    rw [Manager.link?_modifyLink busy.manager serial serial fun link =>
      Link.serial_eq_of_identity (link.identity_readOnce_getD chance), if_pos rfl, hlink,
      Option.map_some, hread, Option.getD_some]
  have hindex : index < busy.tasks.length := (List.getElem?_eq_some_iff.1 htask).1
  simp only [step, work, htask, hactions, mayBegin, Option.bind_eq_bind, Option.bind_some, if_true,
    Manager.perform, hlink, hread]
  cases hloop : read.readLoop with
  | running =>
    refine ⟨_, rfl, hfound, fun _ => ?_⟩
    show (busy.tasks.set index { task with actions := [.read serial] ++ more })[index]? = some task
    rw [List.getElem?_set_self hindex, List.singleton_append, ← hactions]
  | _ => exact ⟨_, rfl, hfound, fun hrunning => by contradiction⟩

/-- A read loop that has nothing to take does not get its turn. -/
theorem step_read_of_none (htask : busy.tasks[index]? = some task)
    (hactions : task.actions = .read serial :: more) (hlink : busy.manager.link? serial = some link)
    (hread : link.readOnce chance = none) : busy.step (.work index chance) = none := by
  simp only [step, work, htask, hactions, mayBegin, Option.bind_eq_bind, Option.bind_some, if_true,
    Manager.perform, hlink, hread, Option.bind_none]

/-- As many turns as there are shares store one after the other, and the last one is kept. -/
theorem run_shares {shares : List Share} {unread : List UInt8}
    (htask : busy.tasks[index]? = some task) (hactions : task.actions = .read serial :: more)
    (hlink : busy.manager.link? serial = some link) (hrunning : link.readLoop = .running)
    (hinbox : link.inbox = Share.stream shares ++ unread) (hframe : chance.reading = .frame) :
    ∃ after read, busy.run (List.replicate shares.length (.work index chance)) = some after ∧
      after.tasks[index]? = some task ∧ after.manager.link? serial = some read ∧
      read.readLoop = .running ∧ read.inbox = unread ∧ read.inboxEnded = link.inboxEnded ∧
      read.latest = (shares.getLast?.map Share.payload).or link.latest := by
  induction shares generalizing busy link with
  | nil => exact ⟨busy, link, rfl, htask, hlink, hrunning, hinbox, rfl, rfl⟩
  | cons share rest ih =>
    have hfront : link.inbox = Wire.frame share.body ++ (Share.stream rest ++ unread) := by
      rw [hinbox, Share.stream, List.flatMap_cons, List.append_assoc]
      rfl
    obtain ⟨next, hstep, hnext, hkept⟩ := step_read htask hactions hlink
      ((Link.readOnce_eq_takeFrame hrunning hframe).trans (Link.takeFrame_share hfront))
    obtain ⟨after, read, hrun, hafter, hread, hloop, hunread, hended, hlatest⟩ :=
      ih (hkept hrunning) hnext hrunning rfl
    refine ⟨after, read, ?_, hafter, hread, hloop, hunread, hended, ?_⟩
    · rw [List.length_cons, List.replicate_succ, run, hstep, Option.bind_some, hrun]
    · rw [hlatest, List.getLast?_cons]
      cases rest.getLast? <;> rfl

/-- A read loop that is given its turns stores every share that has arrived, one in the place of the
other, and then ends for the reason that it finds behind them, or has to wait. -/
def CatchesUp (busy : BusyManager) (index serial : Nat) (link : Link) (chance : Chance) : Prop :=
  ∃ shares unread after read,
    link.inbox = Share.stream shares ++ unread ∧
    busy.run (List.replicate shares.length (.work index chance)) = some after ∧
    after.manager.link? serial = some read ∧ read.readLoop = .running ∧ read.inbox = unread ∧
    read.latest = (shares.getLast?.map Share.payload).or link.latest ∧
    ((∃ exit last ended, ReadStop link.inboxEnded unread exit ∧
        after.step (.work index chance) = some last ∧
        last.manager.link? serial = some ended ∧ ended.readLoop = .ended exit ∧
        ended.latest = read.latest) ∨
      (Unfinished unread ∧ link.inboxEnded = false ∧ after.step (.work index chance) = none))

/-- Whatever has arrived, a read loop catches up with it. -/
theorem catchesUp (htask : busy.tasks[index]? = some task)
    (hactions : task.actions = .read serial :: more) (hlink : busy.manager.link? serial = some link)
    (hrunning : link.readLoop = .running) (hframe : chance.reading = .frame) :
    busy.CatchesUp index serial link chance := by
  obtain ⟨shares, unread, hinbox, hrest⟩ := exists_shares link.inbox link.inboxEnded
  obtain ⟨after, read, hrun, hafter, hread, hloop, hunread, hended, hlatest⟩ :=
    run_shares htask hactions hlink hrunning hinbox hframe
  refine ⟨shares, unread, after, read, hinbox, hrun, hread, hloop, hunread, hlatest, ?_⟩
  rw [← hunread, ← hended] at hrest ⊢
  have hturn := Link.readOnce_eq_takeFrame hloop hframe
  rcases hrest with ⟨exit, hstop⟩ | ⟨hunfinished, hopen⟩
  · obtain ⟨left, htake⟩ := Link.takeFrame_stop chance.now hstop
    obtain ⟨last, hstep, hlast, -⟩ := step_read hafter hactions hread (hturn.trans htake)
    exact .inl ⟨exit, last, _, hstop, hstep, hlast, rfl, rfl⟩
  · exact .inr ⟨hunfinished, hopen, step_read_of_none hafter hactions hread
      (hturn.trans (Link.takeFrame_unfinished hunfinished hopen))⟩

/-! ## The links in the table -/

/-- A link whose read loop has ended has left, or is about to. -/
def Parting (busy : BusyManager) : Prop :=
  ∀ {serial link exit}, busy.manager.link? serial = some link → link.readLoop = .ended exit →
    .left serial ∈ busy.trace ∨ .leave serial exit ∈ busy.pending

/-- Every event lets links leave whose read loop has ended. -/
theorem parting_step {event : Event} (hsound : busy.Sound) (hparting : busy.Parting)
    (hstep : busy.step event = some after) : after.Parting := by
  intro serial link exit hlink hended
  rcases outside_or_turned hsound hstep with ⟨actions, marks, houtside⟩ |
    ⟨front, back, action, chance, outcome, hturned⟩
  · rcases houtside.found hlink with hidle | ⟨old, hold, hpassed⟩
    · rw [hidle] at hended
      contradiction
    · exact (hparting hold (hpassed.readLoop ▸ hended)).imp houtside.mem_trace_of_before
        houtside.mem_pending_of_before
  · obtain ⟨hperform, hbefore, hpending, hmanager, htrace⟩ := hturned
    rw [hmanager] at hlink
    rw [hpending, htrace]
    obtain ⟨old, hold, -⟩ := (Manager.continues_perform hperform).links.exists_before hlink
    rcases (Manager.change_perform hperform hold hlink).aside with haside | ⟨-, rfl⟩ | ⟨rfl, hread⟩
    · rcases hparting hold (haside.readLoop ▸ hended) with hleft | hleave
      · exact .inl (List.mem_append_right _ hleft)
      · by_cases haction : Action.leave serial exit = action
        · subst haction
          obtain ⟨found, -, rfl⟩ := Manager.perform_leave hperform
          exact .inl (List.mem_append_left _ List.mem_cons_self)
        · rw [hbefore] at hleave
          exact .inr (Manager.mem_pending_of_ne hleave haction)
    · contradiction
    · obtain ⟨found, next, hfound, hnext, -, ⟨reason, hreason, hnexts, -⟩ | ⟨hrunning, -⟩⟩ :=
        Manager.perform_read hperform
      · obtain rfl : old = found := Option.some.inj (hold.symm.trans hfound)
        obtain rfl : link = next := Option.some.inj (hread.symm.trans hnext)
        obtain rfl : exit = reason := ReadLoop.ended.inj (hended.symm.trans hreason)
        exact .inr (Manager.mem_pending_of_next (by simp [hnexts]))
      · obtain rfl : old = found := Option.some.inj (hold.symm.trans hfound)
        obtain rfl : link = next := Option.some.inj (hread.symm.trans hnext)
        exact absurd hended (hrunning exit)

/-- A link rightly holds the place of a neighbour. -/
structure Current (busy : BusyManager) (peer : NodeId) (serial : Nat) (link : Link) : Prop where
  unrefused : ∀ other, .refused other serial ∉ busy.trace
  staying : .left serial ∉ busy.trace
  /-- It was accepted for the neighbour, and no other link was since. -/
  newest : ∃ newer other older, busy.trace = newer ++ .accepted other serial :: older ∧
    (peer == other) = true ∧ ∀ next entered, .accepted next entered ∈ newer → (peer == next) = false
  /-- If its read loop has ended, it is about to leave. -/
  leaving : ∀ exit, link.readLoop = .ended exit → .leave serial exit ∈ busy.pending

/-- After any run each link has read a row of shares from the front of what has arrived on it, keeps
the payload of the last one and nothing of the others, and has ended its read loop, unless it was
cancelled or found its connection broken, for the reason that it found behind these shares. A read
loop that runs has its turn pending, and with enough turns it catches up with what has arrived. The
snapshot has of a neighbour exactly what the link keeps that holds the neighbour's place, if this
link is connected; and no link that was refused, displaced or gone holds a place. A link whose read
loop has come to its end holds it until the table lets go of it, which is the next thing that its
task does. -/
theorem snapshot_law {settings : Settings} {timing : Timing} {events : List Event}
    (hrun : (idle settings timing).run events = some busy) :
    (∀ serial link, busy.manager.link? serial = some link →
      (∃ shares rest, link.Heard ((idle settings timing).Broke serial events)
        ((idle settings timing).received serial events) shares rest) ∧
      (link.readLoop = .running → .read serial ∈ busy.pending)) ∧
    (∀ (index serial : Nat) (task : Task) (more : List Action) (link : Link) (chance : Chance),
      busy.tasks[index]? = some task → task.actions = .read serial :: more →
      busy.manager.link? serial = some link → link.readLoop = .running → chance.reading = .frame →
      busy.CatchesUp index serial link chance) ∧
    (∀ peer payload, busy.manager.snapshot.get? peer = some payload ↔
      ∃ link, busy.manager.entry? peer = some link ∧ link.state = .connected ∧
        link.latest = some payload) ∧
    (∀ peer serial, busy.manager.table.get? peer = some serial →
      ∃ link, busy.manager.link? serial = some link ∧ busy.Current peer serial link) := by
  have hidle := sound_idle settings timing
  have hsound := hidle.run hrun
  have hhears : busy.manager.Hears busy.pending ((idle settings timing).Broke · events)
      fun serial => [] ++ (idle settings timing).received serial events :=
    hears_run hidle (hears_idle settings timing) (fun _ _ hbroke => hbroke) hrun
  have hparting : busy.Parting :=
    keeps_run Parting parting_step hidle
      (fun hlink _ => absurd hlink (by simp [idle, Manager.idle, Manager.link?])) hrun
  refine ⟨fun serial link hlink => ⟨hhears.heard hlink, hhears.running hlink⟩,
    fun index serial task more link chance => catchesUp, busy.manager.get?_snapshot,
    fun peer serial hget => ?_⟩
  obtain ⟨link, hlink, -⟩ := hsound.wired.held hget
  obtain ⟨hunrefused, hstaying, hnewest⟩ := (judged_run hrun).held hsound.recorded hget
  exact ⟨link, hlink, hunrefused, hstaying, hnewest, fun exit hended =>
    (hparting hlink hended).resolve_left hstaying⟩

/-- Two shares and a length that no frame has arrive on a link that has just got its place. -/
def sharing : List Event := [
  .start (Directory.empty.register ⟨"a"⟩ ⟨"127.0.0.1", 4000⟩) (fun _ => none) ⟨"a"⟩,
  .greet 0 0 .accepted ⟨"b"⟩ 5, .work 0 {},
  .arrive 1 (Wire.frame (Wire.encodeShare {} (.ofEntries [("x", .int 3)])) ++
    Wire.frame (Wire.encodeShare {} (.ofEntries [("y", .int 7)])) ++ [0, 0, 0, 0]) false]

/-- The read loop catches up with what has arrived, and the second share takes the place of the
first. -/
theorem second_share_replaces_first :
    (∃ busy link, (idle {} {}).run sharing = some busy ∧ busy.manager.link? 1 = some link ∧
      busy.CatchesUp 0 1 link {}) ∧
    ∃ busy payload, (idle {} {}).run (sharing ++ [.work 0 {}, .work 0 {}]) = some busy ∧
      busy.manager.snapshot.get? ⟨"B"⟩ = some payload ∧
      payload.get? "x" = none ∧ (payload.get? "y").isSome = true := by
  constructor
  · have hstart : (((idle {} {}).run sharing).bind fun busy => (busy.manager.link? 1).map fun link =>
        (busy.tasks.map fun task => task.actions.length, link.readLoop)) = some ([1], .running) := by
      decide +kernel
    obtain ⟨busy, hrun, hbusy⟩ := Option.bind_eq_some_iff.1 hstart
    obtain ⟨link, hlink, hboth⟩ := Option.map_eq_some_iff.1 hbusy
    obtain ⟨hcount, hrunning⟩ := Prod.mk.inj hboth
    obtain ⟨hreads, hcatches, -⟩ := snapshot_law hrun
    -- the only thing that is pending is the turn of the read loop
    obtain ⟨task, htasks, hlength⟩ := List.map_eq_singleton_iff.1 hcount
    obtain ⟨action, hactions⟩ := List.length_eq_one_iff.1 hlength
    have hpending := (hreads 1 link hlink).2 hrunning
    rw [pending, htasks, List.flatMap_singleton, hactions, List.mem_singleton] at hpending
    exact ⟨busy, link, hrun, hlink, hcatches 0 1 task [] link {} (by rw [htasks]; rfl)
      (hpending ▸ hactions) hlink hrunning rfl⟩
  · have hend : (((idle {} {}).run (sharing ++ [.work 0 {}, .work 0 {}])).bind fun busy =>
        ((busy.manager.entry? ⟨"B"⟩).bind fun link => link.latest.map fun payload =>
          link.state == .connected && (payload.get? "x").isNone && (payload.get? "y").isSome)) =
        some true := by
      decide +kernel
    obtain ⟨busy, hrun, hbusy⟩ := Option.bind_eq_some_iff.1 hend
    obtain ⟨link, hlink, hlatest⟩ := Option.bind_eq_some_iff.1 hbusy
    obtain ⟨payload, hpayload, hall⟩ := Option.map_eq_some_iff.1 hlatest
    simp only [Bool.and_eq_true, beq_iff_eq, Option.isNone_iff_eq_none] at hall
    exact ⟨busy, payload, hrun, ((snapshot_law hrun).2.2.1 ⟨"B"⟩ payload).2
      ⟨link, hlink, hall.1.1, hpayload⟩, hall.1.2, hall.2⟩

end BusyManager

end RegionGossip
