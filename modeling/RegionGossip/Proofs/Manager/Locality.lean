import RegionGossip.Proofs.Manager.Remembered
import RegionGossip.Proofs.Manager.Snapshot

/-!
# What concerns one neighbour leaves the others alone

Apart from the steps of a stop, whatever a task has yet to do concerns one neighbour: the links that
it means lead to this neighbour, or it is the one that may be remembered. So does a new connection,
and so do the bytes that arrive on a link. Nothing of this touches what the manager has of any other
neighbour, and what follows from it concerns the same neighbour again.
-/

namespace RegionGossip

/-- Whether an action is a step of a stop, which concerns all neighbours. -/
def Action.stops : Action → Bool
  | .drain _ | .finish _ _ => true
  | _ => false

/-- An action takes for granted only of links that it means that they were accepted. -/
theorem Action.mem_targets_of_admits {action : Action} {serial : Nat}
    (hadmits : serial ∈ action.admits) : serial ∈ action.targets := by
  cases action with
  | read | leave | bury | finish => exact hadmits
  | _ => exact absurd hadmits List.not_mem_nil

namespace Manager

/-- Whether the link of a serial leads to a neighbour. -/
def leadsTo (manager : Manager) (peer : NodeId) (serial : Nat) : Bool :=
  (manager.link? serial).any fun link => link.peer == peer

/-- Whether an action concerns one neighbour only. -/
def concerns (manager : Manager) (peer : NodeId) : Action → Bool
  | .retain other => other == peer
  | action => !action.stops && action.targets.all (manager.leadsTo peer)

/-- What a manager has of a neighbour is the same before and after. -/
structure Unaffected (before after : Manager) (other : NodeId) : Prop where
  /-- The entry of the table, with the neighbour as it is spelled there. -/
  entry : after.table.entry? other = before.table.entry? other
  /-- The link in use, with its serial, its rank, its state and the payload that came in last. -/
  link : after.entry? other = before.entry? other
  history : after.history.get? other = before.history.get? other
  nonce : after.linkNonce? other = before.linkNonce? other
  snapshot : after.snapshot.get? other = before.snapshot.get? other
  state : after.linkState other = before.linkState other

end Manager

namespace BusyManager

/-- Whether an event concerns one neighbour only: a connection to it comes about, something arrives
on a link to it, or a task does what concerns it. -/
def concerns (busy : BusyManager) (peer : NodeId) : Event → Bool
  | .greet _ _ _ other _ => other == peer
  | .arrive serial _ _ => busy.manager.leadsTo peer serial
  | .work index _ =>
    (busy.tasks[index]?.bind fun task => task.actions.head?).any (busy.manager.concerns peer)
  | _ => false

/-- Whether everything that happens in a run concerns one neighbour only. -/
def concernsAll (peer : NodeId) (busy : BusyManager) : List Event → Bool
  | [] => true
  | event :: later =>
    busy.concerns peer event && (busy.step event).all fun next => next.concernsAll peer later

end BusyManager

namespace Manager

variable {manager before after : Manager} {pending : List Action} {chance : Chance}
  {action : Action} {outcome : Outcome} {peer other : NodeId} {serial : Nat}

/-- A link that leads to a neighbour. -/
theorem leadsTo_iff : manager.leadsTo peer serial = true ↔
    ∃ link, manager.link? serial = some link ∧ (link.peer == peer) = true := by
  simp [leadsTo, Option.any_eq_true]

/-- Links lead where they led before. -/
theorem leadsTo_of_sameLinks (hsame : SameLinks before after)
    (hleads : before.leadsTo peer serial = true) : after.leadsTo peer serial = true := by
  obtain ⟨link, hlink, hpeer⟩ := leadsTo_iff.1 hleads
  obtain ⟨found, hfound, hidentity⟩ := hsame.exists_after hlink
  exact leadsTo_iff.2 ⟨found, hfound, by rwa [Link.peer_eq_of_identity hidentity]⟩

/-- The links of an action that concerns a neighbour lead to it. -/
theorem leadsTo_of_concerns (hconcerns : manager.concerns peer action = true) :
    ∀ serial ∈ action.targets, manager.leadsTo peer serial = true := by
  cases action <;> simp_all [concerns, Action.stops, Action.targets]

/-- A neighbour that differs from the one that a link leads to. -/
theorem compare_ne_of_leads {link : Link} (hother : (other == peer) = false)
    (hpeer : (link.peer == peer) = true) : compare other link.peer ≠ .eq := by
  intro hsame
  have hequal := BEq.trans (Ident.compare_eq_iff_beq.1 hsame) hpeer
  rw [hother] at hequal
  contradiction

/-- The link in the place of another neighbour does not lead to this one. -/
theorem Wired.not_leadsTo (hwired : Wired manager pending) (hother : (other == peer) = false)
    (hget : manager.table.get? other = some serial) : manager.leadsTo peer serial = false := by
  refine Bool.eq_false_iff.2 fun hleads => ?_
  obtain ⟨link, hlink, hpeer⟩ := leadsTo_iff.1 hleads
  exact compare_ne_of_leads hother hpeer (hwired.compare_peer hget hlink)

namespace Unaffected

/-- What a manager has of a neighbour depends on its entry, the link that is in it, and the history. -/
theorem of_parts (hentry : after.table.entry? other = before.table.entry? other)
    (hlink : ∀ serial, before.table.get? other = some serial →
      after.link? serial = before.link? serial)
    (hhistory : after.history.get? other = before.history.get? other) :
    Unaffected before after other := by
  have hget : after.table.get? other = before.table.get? other := by
    rw [SortedMap.get?, SortedMap.get?, hentry]
  have hentryLink : after.entry? other = before.entry? other := by
    rw [Manager.entry?, Manager.entry?, hget]
    cases hserial : before.table.get? other with
    | none => rfl
    | some serial => exact hlink serial hserial
  refine ⟨hentry, hentryLink, hhistory, ?_, Option.ext fun payload => ?_, ?_⟩
  · rw [linkNonce?, linkNonce?, hentryLink]
  · rw [get?_snapshot, get?_snapshot, hentryLink]
  · rw [linkState, linkState, hentryLink, hhistory]

/-- Doing nothing affects nobody. -/
theorem refl (manager : Manager) (other : NodeId) : Unaffected manager manager other :=
  ⟨rfl, rfl, rfl, rfl, rfl, rfl⟩

/-- One change after the other. -/
theorem trans {middle : Manager} (hfirst : Unaffected before middle other)
    (hsecond : Unaffected middle after other) : Unaffected before after other :=
  ⟨hsecond.entry.trans hfirst.entry, hsecond.link.trans hfirst.link,
    hsecond.history.trans hfirst.history, hsecond.nonce.trans hfirst.nonce,
    hsecond.snapshot.trans hfirst.snapshot, hsecond.state.trans hfirst.state⟩

end Unaffected

/-- Whoever is not named keeps what is remembered of it. -/
theorem Recalls.get?_eq {named : NodeId → Prop} (hrecalls : Recalls before after named)
    (hunnamed : ¬ named other) : after.history.get? other = before.history.get? other := by
  refine Option.ext fun state => ⟨fun hafter => ?_, fun hbefore => ?_⟩
  · exact (hrecalls.new hafter).resolve_right fun hnamed => hunnamed hnamed.2
  · obtain ⟨kept, hkept⟩ := Option.isSome_iff_exists.1 (hrecalls.kept (by rw [hbefore]; rfl))
    have hold := (hrecalls.new hkept).resolve_right fun hnamed => hunnamed hnamed.2
    rw [hkept, ← hold, hbefore]

/-- Letting go of a link takes the entry of its own neighbour out of the table at most. -/
theorem entry?_release {link : Link} (hother : compare other link.peer ≠ .eq) :
    (manager.release link).table.entry? other = manager.table.entry? other := by
  rw [release]
  split
  · exact SortedMap.entry?_erase_of_ne hother
  · rfl

/-- An action that concerns one neighbour affects no other one. -/
theorem unaffected_perform (hwired : Wired manager pending)
    (hperform : manager.perform chance action = some outcome)
    (hconcerns : manager.concerns peer action = true) (hother : (other == peer) = false) :
    Unaffected manager outcome.manager other := by
  have hleads := leadsTo_of_concerns hconcerns
  have hpeer {serial : Nat} {link : Link} (htarget : serial ∈ action.targets)
      (hlink : manager.link? serial = some link) : (link.peer == peer) = true := by
    obtain ⟨found, hfound, hpeer⟩ := leadsTo_iff.1 (hleads serial htarget)
    obtain rfl : link = found := Option.some.inj (hlink.symm.trans hfound)
    exact hpeer
  refine .of_parts ?_ (fun serial hget => ?_) ((recalls_perform hperform).get?_eq ?_)
  · rcases table_perform hperform with ⟨htable, -⟩ | ⟨serial, link, rfl, hlink, -, htable, -⟩ |
      ⟨serial, link, haction, hlink, hmanager, -⟩ | ⟨session, rfl, -⟩
    · rw [htable]
    · rw [htable]
      exact SortedMap.entry?_insert_of_ne
        (compare_ne_of_leads hother (hpeer List.mem_cons_self hlink)) serial
    · have htarget : serial ∈ action.targets := by
        rcases haction with ⟨exit, rfl⟩ | rfl <;> exact List.mem_cons_self
      rw [hmanager]
      exact entry?_release (compare_ne_of_leads hother (hpeer htarget hlink))
    · exact nomatch hconcerns
  · refine link?_perform hperform fun htarget => ?_
    have hnot := hwired.not_leadsTo hother hget
    rw [hleads serial htarget] at hnot
    contradiction
  · rintro (⟨named, rfl, hnamed⟩ | ⟨serial, hadmits, link, hlink, hnamed⟩)
    · have hsame := BEq.trans hnamed (show (named == peer) = true from hconcerns)
      rw [hother] at hsame
      contradiction
    · exact compare_ne_of_leads hother (hpeer (Action.mem_targets_of_admits hadmits) hlink)
        (Ident.compare_eq_iff_beq.2 hnamed)

/-- An action whose links lead to a neighbour concerns it, unless it is a step of a stop or somebody is
to be looked for. -/
theorem concerns_of_leadsTo (hstops : action.stops = false) (hretain : ∀ other, action ≠ .retain other)
    (hleads : ∀ serial ∈ action.targets, manager.leadsTo peer serial = true) :
    manager.concerns peer action = true := by
  cases action <;> simp_all [concerns, Action.stops, Action.targets]

/-- What follows from an action that concerns one neighbour concerns the same one. -/
theorem concerns_of_next {next : Action} (hwired : Wired manager pending)
    (hperform : manager.perform chance action = some outcome)
    (hconcerns : manager.concerns peer action = true) (hnext : next ∈ outcome.next) :
    outcome.manager.concerns peer next = true := by
  have hsame := (continues_perform hperform).links
  have hleads := leadsTo_of_concerns hconcerns
  have hone {serial : Nat} (hserial : manager.leadsTo peer serial = true) :
      ∀ target ∈ [serial], outcome.manager.leadsTo peer target = true := by
    rintro target htarget
    obtain rfl := List.mem_singleton.1 htarget
    exact leadsTo_of_sameLinks hsame hserial
  cases follows_of_next hperform hnext with
  | @displaced serial link old hlink haccepts hold =>
    -- the link whose place is taken leads where the new one does
    obtain ⟨found, hfound, hpeer⟩ := leadsTo_iff.1 (hleads serial List.mem_cons_self)
    obtain rfl : link = found := Option.some.inj (hlink.symm.trans hfound)
    obtain ⟨held, hheld, hcompare⟩ := hwired.held hold
    have hheldPeer := BEq.trans (BEq.symm (Ident.compare_eq_iff_beq.1 hcompare)) hpeer
    exact concerns_of_leadsTo rfl nofun (hone (leadsTo_iff.2 ⟨held, hheld, hheldPeer⟩))
  | @retain serial link hlink =>
    obtain ⟨found, hfound, hpeer⟩ := leadsTo_iff.1 (hleads serial List.mem_cons_self)
    obtain rfl : link = found := Option.some.inj (hlink.symm.trans hfound)
    exact hpeer
  | drained | finish => exact nomatch hconcerns
  | accepted | refused | rejected | shut | again | exited | left | bury | failed | dropped =>
    exact concerns_of_leadsTo rfl nofun (hone (hleads _ List.mem_cons_self))

/-- Whatever is pending concerns one neighbour, unless it is a step of a stop. -/
theorem Wired.exists_concerns (hwired : Wired manager pending) (hpending : action ∈ pending) :
    action.stops = true ∨ ∃ peer, manager.concerns peer action = true := by
  have hknown := hwired.known action hpending
  cases action with
  | drain | finish => exact .inl rfl
  | retain other => exact .inr ⟨other, BEq.rfl⟩
  | enter serial | close notify serial | shut notify serial | terminate serial | read serial
  | leave serial exit | bury serial released | send payload serial | drop serial =>
    obtain ⟨link, hlink⟩ := Option.isSome_iff_exists.1 (hknown serial List.mem_cons_self)
    refine .inr ⟨link.peer, concerns_of_leadsTo rfl nofun fun target htarget => ?_⟩
    obtain rfl := List.mem_singleton.1 htarget
    exact leadsTo_iff.2 ⟨link, hlink, BEq.rfl⟩

end Manager

namespace BusyManager

open Manager (Unaffected)

variable {busy after : BusyManager} {peer other : NodeId} {event : Event}

/-- An event that concerns one neighbour affects no other one. -/
theorem unaffected_step (hsound : busy.Sound) (hconcerns : busy.concerns peer event = true)
    (hstep : busy.step event = some after) (hother : (other == peer) = false) :
    Unaffected busy.manager after.manager other := by
  have hwired := hsound.wired
  cases event with
  | greet now number origin greeted nonce =>
    obtain ⟨session, -, -, rfl, -⟩ := step_greet hstep
    refine .of_parts rfl (fun serial hget => ?_) rfl
    obtain ⟨link, hlink, -⟩ := hwired.held hget
    have hunused := Manager.link?_nextSerial hwired.numbered
    refine (Manager.link?_addLink hunused serial).trans (if_neg ?_)
    rintro rfl
    exact nomatch hunused.symm.trans hlink
  | arrive reached bytes ended =>
    obtain rfl := Option.some.inj hstep
    refine .of_parts rfl (fun serial hget => Manager.link?_modifyLink_of_ne (fun _ => rfl) ?_) rfl
    rintro rfl
    exact Bool.eq_false_iff.1 (hwired.not_leadsTo hother hget) hconcerns
  | work index chance =>
    obtain ⟨front, action, back, outcome, hfirst, hperform, -, -, hmanager, -⟩ := step_work hstep
    rw [concerns, hfirst, Option.any_some] at hconcerns
    rw [hmanager]
    exact Manager.unaffected_perform hwired hperform hconcerns hother
  | start | broadcast | reconfigure | stop => exact nomatch hconcerns

/-- What becomes pending by an event that concerns one neighbour concerns the same one. -/
theorem concerns_step (hsound : busy.Sound) (hconcerns : busy.concerns peer event = true)
    (hstep : busy.step event = some after) {action : Action} (haction : action ∈ after.pending) :
    action ∈ busy.pending ∨ after.manager.concerns peer action = true := by
  have hwired := hsound.wired
  cases event with
  | greet now number origin greeted nonce =>
    obtain ⟨session, -, -, rfl, hpending⟩ := step_greet hstep
    rw [hpending, List.mem_append, List.mem_singleton] at haction
    refine haction.imp_right ?_
    rintro rfl
    refine Manager.concerns_of_leadsTo rfl nofun fun serial hserial => ?_
    obtain rfl := List.mem_singleton.1 hserial
    have hunused := Manager.link?_nextSerial hwired.numbered
    exact Manager.leadsTo_iff.2
      ⟨_, (Manager.link?_addLink hunused _).trans (if_pos rfl), hconcerns⟩
  | arrive reached bytes ended =>
    obtain rfl := Option.some.inj hstep
    exact .inl haction
  | work index chance =>
    obtain ⟨front, done, back, outcome, hfirst, hperform, hpending, hpendingAfter, hmanager, -⟩ :=
      step_work hstep
    rw [concerns, hfirst, Option.any_some] at hconcerns
    rw [hpendingAfter] at haction
    rw [hpending, hmanager]
    exact (Manager.mem_kept_or_next haction).imp Manager.mem_pending_of_kept
      (Manager.concerns_of_next hwired hperform hconcerns)
  | start | broadcast | reconfigure | stop => exact nomatch hconcerns

/-- Events that concern one neighbour affect no other one, however many there are. -/
theorem unaffected_run {events : List Event} (hsound : busy.Sound)
    (hconcerns : busy.concernsAll peer events = true) (hrun : busy.run events = some after)
    (hother : (other == peer) = false) : Unaffected busy.manager after.manager other := by
  induction events generalizing busy with
  | nil =>
    obtain rfl := Option.some.inj hrun
    exact .refl _ _
  | cons event later ih =>
    obtain ⟨next, hstep, hlater⟩ := Option.bind_eq_some_iff.1 hrun
    rw [concernsAll, hstep, Option.all_some, Bool.and_eq_true] at hconcerns
    exact (unaffected_step hsound hconcerns.1 hstep hother).trans
      (ih (hsound.step hstep) hconcerns.2 hlater)

/-- At any time everything that is pending concerns one neighbour, apart from the steps of a stop.
Whatever happens that concerns one neighbour, a new connection to it, bytes or the end of the stream
on one of its links, or anything that a task does about one of them, leaves what the manager has of
every other neighbour as it is: the entry of the table, the link in it with its serial, its rank, its
state and its payload, the history, the snapshot and the reported state. All that follows from it
concerns the same neighbour, and the others are not affected by that either. -/
theorem others_unaffected {settings : Settings} {timing : Timing} {events : List Event}
    (hrun : (idle settings timing).run events = some busy) :
    (∀ action ∈ busy.pending,
      action.stops = true ∨ ∃ peer, busy.manager.concerns peer action = true) ∧
    (∀ peer event after, busy.concerns peer event = true → busy.step event = some after →
      (∀ other, (other == peer) = false → Unaffected busy.manager after.manager other) ∧
      ∀ action ∈ after.pending,
        action ∈ busy.pending ∨ after.manager.concerns peer action = true) ∧
    (∀ peer later after, busy.concernsAll peer later = true → busy.run later = some after →
      ∀ other, (other == peer) = false → Unaffected busy.manager after.manager other) := by
  have hsound := (sound_idle settings timing).run hrun
  exact ⟨fun action => hsound.wired.exists_concerns,
    fun peer event after hconcerns hstep =>
      ⟨fun other => unaffected_step hsound hconcerns hstep,
        fun action => concerns_step hsound hconcerns hstep⟩,
    fun peer later after hconcerns hlater other => unaffected_run hsound hconcerns hlater⟩

/-- Two neighbours get links, and the second one shares a payload. -/
def gathering : List Event := [
  .start (Directory.empty.register ⟨"a"⟩ ⟨"127.0.0.1", 4000⟩) (fun _ => none) ⟨"a"⟩,
  .greet 0 0 .accepted ⟨"b"⟩ 5, .work 0 {},
  .greet 0 0 .accepted ⟨"c"⟩ 7, .work 1 {},
  .arrive 2 (Wire.frame (Wire.encodeShare {} (.ofEntries [("x", .int 3)]))) false, .work 1 {}]

/-- A second connection of the first neighbour is turned down, and its link breaks at a length that
no frame has. -/
def quarrel : List Event := [
  .greet 0 0 .accepted ⟨"B"⟩ 3, .work 2 {}, .work 2 {}, .work 2 {}, .work 2 {},
  .arrive 1 [0, 0, 0, 0] false, .work 0 {}, .work 0 {}, .work 0 {}, .work 0 {}, .work 0 {}]

/-- What the first neighbour does ends its link, and the payload of the second one stays. -/
theorem quarrel_leaves_neighbor :
    ∃ busy after, (idle {} {}).run gathering = some busy ∧
      busy.concernsAll ⟨"b"⟩ quarrel = true ∧ busy.run quarrel = some after ∧
      after.manager.linkState ⟨"b"⟩ = .terminated ∧
      after.manager.linkState ⟨"C"⟩ = .connected ∧
      after.manager.snapshot.get? ⟨"C"⟩ = busy.manager.snapshot.get? ⟨"C"⟩ := by
  have hend : (((idle {} {}).run gathering).bind fun busy => (busy.run quarrel).map fun after =>
      (busy.concernsAll ⟨"b"⟩ quarrel, busy.manager.linkState ⟨"C"⟩,
        after.manager.linkState ⟨"b"⟩)) = some (true, .connected, .terminated) := by
    decide +kernel
  obtain ⟨busy, hrun, hbusy⟩ := Option.bind_eq_some_iff.1 hend
  obtain ⟨after, hafter, hstates⟩ := Option.map_eq_some_iff.1 hbusy
  simp only [Prod.mk.injEq] at hstates
  obtain ⟨hconcerns, hconnected, hterminated⟩ := hstates
  have hother := (others_unaffected hrun).2.2 ⟨"b"⟩ quarrel after hconcerns hafter ⟨"C"⟩ (by decide)
  exact ⟨busy, after, hrun, hconcerns, hafter, hterminated, hother.state.trans hconnected,
    hother.snapshot⟩

end BusyManager

end RegionGossip
