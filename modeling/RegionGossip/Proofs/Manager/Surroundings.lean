import RegionGossip.Proofs.Manager.Changes

/-!
# What happens outside the tasks

Whatever happens to a manager other than by the turn of a task leaves its table and its history as
they are. It may add the first actions of a new task, record a start or a stop, and make a new link;
of the links that there are it changes nothing but what has arrived on them and whether they are
cancelled. So what is to be kept by every event has to be shown for turns of tasks and for this.
-/

namespace RegionGossip

/-- The link that something has happened to. -/
def Mark.serial? : Mark → Option Nat
  | .accepted _ serial | .refused _ serial | .exited serial _ | .failed serial | .left serial =>
    some serial
  | .started _ | .stopped | .drained => none

/-- What may happen to a link outside the tasks: bytes arrive on it, or it is cancelled. -/
structure Link.Passed (before after : Link) : Prop where
  identity : after.identity = before.identity
  state : after.state = before.state
  readLoop : after.readLoop = before.readLoop

/-- A link to which nothing happens. -/
theorem Link.Passed.refl (link : Link) : Link.Passed link link := ⟨rfl, rfl, rfl⟩

namespace BusyManager

/-- Something happens outside the tasks: some first actions are added to what is pending, and some
marks that concern no link are recorded. -/
structure Outside (busy after : BusyManager) (more : List Action) (marks : List Mark) : Prop where
  pending : after.pending = busy.pending ++ more
  begins : ∀ action ∈ more, action.begins = true
  /-- Only a link that was not there before asks for its place. -/
  fresh : ∀ {serial}, .enter serial ∈ more → busy.manager.link? serial = none
  trace : after.trace = marks ++ busy.trace
  unnamed : ∀ mark ∈ marks, mark.serial? = none
  table : after.manager.table = busy.manager.table
  history : after.manager.history = busy.manager.history
  kept : ∀ {serial link}, busy.manager.link? serial = some link →
    ∃ next, after.manager.link? serial = some next ∧ link.Passed next
  /-- A link that was not there before has not begun to read. -/
  found : ∀ {serial link}, after.manager.link? serial = some link →
    link.readLoop = .idle ∨ ∃ old, busy.manager.link? serial = some old ∧ old.Passed link

/-- A task gets its turn: an action is done, and what follows from it takes its place. -/
structure Turned (busy after : BusyManager) (front back : List Action) (action : Action)
    (chance : Chance) (outcome : Manager.Outcome) : Prop where
  performed : busy.manager.perform chance action = some outcome
  before : busy.pending = front ++ action :: back
  pending : after.pending = front ++ (outcome.next ++ back)
  manager : after.manager = outcome.manager
  trace : after.trace = outcome.marks ++ busy.trace

variable {busy after : BusyManager} {more : List Action} {marks : List Mark}

namespace Outside

/-- Something happens that makes no link. -/
theorem of_links (change : Link → Link) (hpassed : ∀ link, Link.Passed link (change link))
    (hlinks : after.manager.links = busy.manager.links.map change)
    (htable : after.manager.table = busy.manager.table)
    (hhistory : after.manager.history = busy.manager.history)
    (hpending : after.pending = busy.pending ++ more)
    (hmore : ∀ action ∈ more, action.begins = true ∧ ∀ serial, action ≠ .enter serial)
    (htrace : after.trace = marks ++ busy.trace)
    (hunnamed : ∀ mark ∈ marks, mark.serial? = none) : Outside busy after more marks := by
  have hfind := Manager.link?_of_links_map
    (fun link => Link.serial_eq_of_identity (hpassed link).identity) hlinks
  refine ⟨hpending, fun action haction => (hmore action haction).1,
    fun {serial} henter => absurd rfl ((hmore _ henter).2 serial), htrace, hunnamed, htable,
    hhistory, fun {serial link} hlink => ?_, fun {serial link} hlink => .inr ?_⟩
  · exact ⟨change link, by rw [hfind, hlink, Option.map_some], hpassed link⟩
  · rw [hfind] at hlink
    obtain ⟨old, hold, rfl⟩ := Option.map_eq_some_iff.1 hlink
    exact ⟨old, hold, hpassed old⟩

/-- Something happens that leaves the links as they are. -/
theorem of_links_eq (hlinks : after.manager.links = busy.manager.links)
    (htable : after.manager.table = busy.manager.table)
    (hhistory : after.manager.history = busy.manager.history)
    (hpending : after.pending = busy.pending ++ more)
    (hmore : ∀ action ∈ more, action.begins = true ∧ ∀ serial, action ≠ .enter serial)
    (htrace : after.trace = marks ++ busy.trace)
    (hunnamed : ∀ mark ∈ marks, mark.serial? = none) : Outside busy after more marks :=
  of_links id Link.Passed.refl (by rw [hlinks, List.map_id]) htable hhistory hpending
    hmore htrace hunnamed

/-- What is about to happen to a neighbour's link was not brought about outside the tasks. -/
theorem mem_pending (houtside : Outside busy after more marks) {action : Action}
    (hlater : action.begins = false) (hmem : action ∈ after.pending) : action ∈ busy.pending := by
  rw [houtside.pending] at hmem
  refine (List.mem_append.1 hmem).resolve_right fun hmore => ?_
  rw [houtside.begins action hmore] at hlater
  contradiction

/-- What has happened to a link has not happened outside the tasks. -/
theorem mem_trace (houtside : Outside busy after more marks) {mark : Mark} {serial : Nat}
    (hserial : mark.serial? = some serial) (hmem : mark ∈ after.trace) : mark ∈ busy.trace := by
  rw [houtside.trace] at hmem
  refine (List.mem_append.1 hmem).resolve_left fun hmarks => ?_
  rw [houtside.unnamed mark hmarks] at hserial
  contradiction

/-- What was pending is pending. -/
theorem mem_pending_of_before (houtside : Outside busy after more marks) {action : Action}
    (hmem : action ∈ busy.pending) : action ∈ after.pending :=
  houtside.pending ▸ List.mem_append_left _ hmem

/-- What was recorded is recorded. -/
theorem mem_trace_of_before (houtside : Outside busy after more marks) {mark : Mark}
    (hmem : mark ∈ busy.trace) : mark ∈ after.trace :=
  houtside.trace ▸ List.mem_append_right _ hmem

end Outside

/-- Every event but the turn of a task happens outside the tasks. -/
theorem outside_step {event : Event} (hsound : busy.Sound) (hstep : busy.step event = some after)
    (hwork : ∀ index chance, event ≠ .work index chance) :
    ∃ more marks, Outside busy after more marks := by
  cases event with
  | start directory binds node =>
    obtain ⟨session, -, -, rfl⟩ := step_start hstep
    exact ⟨[], [.started session], .of_links_eq rfl rfl rfl (List.append_nil _).symm (by simp)
      rfl (by simp [Mark.serial?])⟩
  | greet now number origin peer nonce =>
    obtain ⟨session, -, -, rfl, hpending⟩ := step_greet hstep
    have hnew := Manager.link?_nextSerial hsound.wired.numbered
    refine ⟨[.enter busy.manager.nextSerial], [], hpending, by simp [Action.begins],
      fun {serial} henter => ?_, rfl, by simp, rfl, rfl,
      fun {serial link} hlink => ⟨link, ?_, .refl link⟩, fun {serial link} hlink => ?_⟩
    · obtain rfl := Action.enter.inj (List.mem_singleton.1 henter)
      exact hnew
    · rw [Manager.link?_addLink hnew, if_neg, hlink]
      rintro rfl
      exact absurd (hnew.symm.trans hlink) nofun
    · rw [Manager.link?_addLink hnew] at hlink
      split at hlink
      · obtain rfl := Option.some.inj hlink
        exact .inl rfl
      · exact .inr ⟨link, hlink, .refl link⟩
  | arrive reached bytes ended =>
    obtain rfl := Option.some.inj hstep
    refine ⟨[], [], .of_links _ (fun link => ?_) rfl rfl rfl (List.append_nil _).symm (by simp)
      rfl (by simp)⟩
    split
    · exact ⟨rfl, rfl, rfl⟩
    · exact .refl link
  | broadcast payload order =>
    obtain ⟨hmanager, -, htrace, hpending⟩ := step_broadcast hstep
    exact ⟨_, [], .of_links_eq (by rw [hmanager]) (by rw [hmanager]) (by rw [hmanager]) hpending
      (by simp [Action.begins]) htrace (by simp)⟩
  | reconfigure settings =>
    obtain ⟨-, rfl⟩ := step_reconfigure hstep
    exact ⟨[], [], .of_links_eq rfl rfl rfl (List.append_nil _).symm (by simp) rfl (by simp)⟩
  | stop =>
    obtain ⟨session, -, rfl, hpending⟩ := step_stop hstep
    refine ⟨_, [.stopped], .of_links _ (fun link => ?_) rfl rfl rfl hpending
      (by simp [Action.begins]) rfl (by simp [Mark.serial?])⟩
    split
    · exact ⟨rfl, rfl, rfl⟩
    · exact .refl link
  | work index chance => exact absurd rfl (hwork index chance)

/-- Every event is the turn of a task or happens outside the tasks. -/
theorem outside_or_turned {event : Event} (hsound : busy.Sound)
    (hstep : busy.step event = some after) :
    (∃ more marks, Outside busy after more marks) ∨
      ∃ front back action chance outcome, Turned busy after front back action chance outcome := by
  by_cases hwork : ∃ index chance, event = .work index chance
  · obtain ⟨index, chance, rfl⟩ := hwork
    obtain ⟨front, action, back, outcome, -, hperform, hbefore, hpending, hmanager, -, htrace⟩ :=
      step_work hstep
    exact .inr ⟨front, back, action, chance, outcome, hperform, hbefore, hpending, hmanager, htrace⟩
  · exact .inl (outside_step hsound hstep fun index chance h => hwork ⟨index, chance, h⟩)

/-- What every event keeps holds after any run. -/
theorem keeps_run (holds : BusyManager → Prop) {events : List Event}
    (hkeeps : ∀ {before event next}, before.Sound → holds before → before.step event = some next →
      holds next)
    (hsound : busy.Sound) (hholds : holds busy) (hrun : busy.run events = some after) :
    holds after := by
  induction events generalizing busy with
  | nil =>
    obtain rfl := Option.some.inj hrun
    exact hholds
  | cons event later ih =>
    obtain ⟨next, hstep, hlater⟩ := Option.bind_eq_some_iff.1 hrun
    exact ih (hsound.step hstep) (hkeeps hsound hholds hstep) hlater

end BusyManager

end RegionGossip
