import RegionGossip.Proofs.Manager.Lifecycle
import RegionGossip.Proofs.Manager.Sessions

/-!
# What every run keeps

The invariants of a manager with its tasks hold when it was never started, and every event keeps
them, so they hold after any run.
-/

namespace RegionGossip.BusyManager

/-- What holds of a manager with its tasks at any time. -/
structure Sound (busy : BusyManager) : Prop where
  wired : busy.manager.Wired busy.pending
  recorded : busy.manager.Recorded busy.trace
  departures : Departures busy.pending busy.trace
  sessions : busy.manager.InSession busy.sessions busy.pending
  tended : busy.manager.Tended busy.pending

/-- A manager that was never started is sound. -/
theorem sound_idle (settings : Settings) (timing : Timing) : (idle settings timing).Sound where
  wired := ⟨rfl, fun _ haction => absurd haction List.not_mem_nil,
    fun hget => absurd hget (by simp [idle, Manager.idle]),
    fun henter => absurd henter List.not_mem_nil⟩
  recorded := ⟨fun _ => rfl, rfl⟩
  departures := ⟨fun hdeparted => absurd hdeparted (by simp [Departed, idle]),
    fun hgone => absurd hgone (by simp [Leaving, idle, pending])⟩
  sessions := ⟨rfl, fun hsession => absurd hsession (by simp [idle]),
    fun hsession => absurd hsession (by simp [idle, Manager.idle]),
    fun hlink => absurd hlink (by simp [idle, Manager.idle, Manager.link?]),
    .inr fun hget _ => absurd hget (by simp [idle, Manager.idle])⟩
  tended := ⟨fun hlink => absurd hlink (by simp [idle, Manager.idle, Manager.link?]),
    fun hlink => absurd hlink (by simp [idle, Manager.idle, Manager.link?]),
    fun hleave => absurd hleave List.not_mem_nil⟩

namespace Sound

variable {busy after : BusyManager}

/-- A turn of a task keeps everything sound. -/
theorem work {index : Nat} {chance : Chance} (hsound : busy.Sound)
    (hstep : busy.step (.work index chance) = some after) : after.Sound := by
  obtain ⟨front, action, back, outcome, -, hperform, hpending, hpendingAfter, hmanager, hsessions,
    htrace⟩ := step_work hstep
  obtain ⟨hwired, hrecorded, hdepartures, hinSession, htended⟩ := hsound
  rw [hpending] at hwired hdepartures hinSession htended
  refine ⟨?_, ?_, ?_, ?_, ?_⟩
  · rw [hpendingAfter, hmanager]
    exact hwired.perform hperform
  · rw [htrace, hmanager]
    exact hrecorded.perform hwired hperform
  · rw [hpendingAfter, htrace]
    exact hdepartures.perform hperform
  · rw [hpendingAfter, hmanager, hsessions]
    exact hinSession.perform hwired hperform
  · rw [hpendingAfter, hmanager]
    exact htended.perform hwired hperform

/-- A start keeps everything sound. -/
theorem start {directory : Directory} {binds : Address → Option IoFault} {node : NodeId}
    (hsound : busy.Sound) (hstep : busy.step (.start directory binds node) = some after) :
    after.Sound := by
  obtain ⟨session, hnone, hnumber, rfl⟩ := step_start hstep
  obtain ⟨hwired, hrecorded, hdepartures, hinSession, htended⟩ := hsound
  refine ⟨?_, ⟨hrecorded.table, rfl⟩, ?_, hinSession.opened hnone hnumber, ?_⟩
  · exact hwired.keep rfl rfl fun {serial link} hlink => ⟨link, hlink, rfl⟩
  · exact hdepartures.note (by simp [Departed])
  · exact htended.keep rfl (.of_links_eq rfl) rfl

/-- A greeting keeps everything sound. -/
theorem greet {now number : Nat} {origin : Origin} {peer : NodeId} {nonce : Int64}
    (hsound : busy.Sound) (hstep : busy.step (.greet now number origin peer nonce) = some after) :
    after.Sound := by
  obtain ⟨session, hsession, hfits, rfl, hpending⟩ := step_greet hstep
  obtain ⟨hwired, hrecorded, hdepartures, hinSession, htended⟩ := hsound
  refine ⟨?_, hrecorded.of_eq rfl rfl, ?_, ?_, ?_⟩
  · rw [hpending]
    exact hwired.addLink rfl rfl
  · rw [hpending]
    exact hdepartures.add (by simp [Leaving])
  · rw [hpending]
    refine hinSession.addLink hwired _ rfl ?_ (Origin.ne_of_fits hfits)
    show busy.sessions[session.number]? = some session
    rwa [hinSession.numbered hsession]
  · rw [hpending]
    exact htended.addLink hwired rfl

/-- Bytes that arrive keep everything sound. -/
theorem arrive {serial : Nat} {bytes : List UInt8} {ended : Bool} (hsound : busy.Sound)
    (hstep : busy.step (.arrive serial bytes ended) = some after) : after.Sound := by
  obtain rfl := Option.some.inj hstep
  obtain ⟨hwired, hrecorded, hdepartures, hinSession, htended⟩ := hsound
  have hsame := Manager.SameLinks.modifyLink busy.manager serial
    fun link => link.identity_arrive bytes ended
  have hlinks (other : Nat) := Manager.link?_modifyLink busy.manager serial other
    fun link => Link.serial_eq_of_identity (link.identity_arrive bytes ended)
  have hadvances := Manager.Advances.modifyLink busy.manager
    (fun link => Link.serial_eq_of_identity (link.identity_arrive bytes ended))
    fun link (_ : busy.manager.link? serial = some link) => .of_eq rfl rfl
  refine ⟨hwired.keep hsame rfl fun {other link} hlink => ?_, hrecorded.of_eq rfl rfl, hdepartures,
    hinSession.keep hsame rfl rfl rfl, htended.keep hsame hadvances rfl⟩
  rw [hlinks] at hlink
  split at hlink
  · obtain ⟨old, hold, rfl⟩ := Option.map_eq_some_iff.1 hlink
    exact ⟨old, hold, rfl⟩
  · exact ⟨link, hlink, rfl⟩

/-- A broadcast that begins keeps everything sound. -/
theorem broadcast {payload : Payload} {order : List Nat} (hsound : busy.Sound)
    (hstep : busy.step (.broadcast payload order) = some after) : after.Sound := by
  obtain ⟨hmanager, hsessions, htrace, hpending⟩ := step_broadcast hstep
  obtain ⟨hwired, hrecorded, hdepartures, hinSession, htended⟩ := hsound
  refine ⟨?_, ?_, ?_, ?_, ?_⟩
  · rw [hmanager, hpending]
    refine hwired.extend rfl rfl (fun {serial link} hlink => ⟨link, hlink, rfl⟩)
      fun action haction => ?_
    obtain ⟨serial, hserial, rfl⟩ := List.mem_map.1 haction
    refine ⟨by simp, fun target htarget => ?_⟩
    obtain rfl : target = serial := by simpa [Action.targets] using htarget
    exact busy.manager.table.mem_values_iff.1 (Manager.mem_visits_iff.1 hserial)
  · rwa [hmanager, htrace]
  · rw [hpending, htrace]
    exact hdepartures.add (by simp [Leaving])
  · rw [hmanager, hsessions, hpending]
    exact hinSession.extend _ rfl rfl rfl rfl
  · rw [hmanager, hpending]
    exact htended.extend rfl (.refl _) rfl (by simp)

/-- A change of settings keeps everything sound. -/
theorem reconfigure {settings : Settings} (hsound : busy.Sound)
    (hstep : busy.step (.reconfigure settings) = some after) : after.Sound := by
  obtain ⟨-, rfl⟩ := step_reconfigure hstep
  obtain ⟨hwired, hrecorded, hdepartures, hinSession, htended⟩ := hsound
  exact ⟨hwired.keep rfl rfl fun {serial link} hlink => ⟨link, hlink, rfl⟩,
    hrecorded.of_eq rfl rfl, hdepartures, hinSession.keep rfl rfl rfl rfl,
    htended.keep rfl (.of_links_eq rfl) rfl⟩

/-- A stop that begins keeps everything sound. -/
theorem stop (hsound : busy.Sound) (hstep : busy.step .stop = some after) : after.Sound := by
  obtain ⟨session, -, rfl, hpending⟩ := step_stop hstep
  obtain ⟨hwired, hrecorded, hdepartures, hinSession, htended⟩ := hsound
  refine ⟨?_, ⟨hrecorded.table, rfl⟩, ?_, ?_, ?_⟩
  · rw [hpending]
    refine hwired.extend (Manager.sameLinks_halted ..) rfl (fun {serial link} hlink => ?_)
      fun action haction => ?_
    · rw [Manager.link?_halted] at hlink
      obtain ⟨old, hold, rfl⟩ := Option.map_eq_some_iff.1 hlink
      refine ⟨old, hold, ?_⟩
      split <;> rfl
    · obtain rfl : action = .drain session.number := by simpa using haction
      exact ⟨by simp, fun target htarget => absurd htarget List.not_mem_nil⟩
  · rw [hpending]
    have hnoted : Departures busy.pending (.stopped :: busy.trace) :=
      hdepartures.note (by simp [Departed])
    exact hnoted.add (by simp [Leaving])
  · rw [hpending]
    exact hinSession.halted session
  · rw [hpending]
    refine htended.extend (Manager.sameLinks_halted ..) (fun serial link hlink => ?_) rfl (by simp)
    refine ⟨_, by rw [Manager.link?_halted, hlink, Option.map_some], fun hstate => ?_,
      fun hcancelled => ?_⟩
    · split <;> exact hstate
    · split
      · rfl
      · exact hcancelled

/-- Every event keeps everything sound. -/
theorem step {event : Event} (hsound : busy.Sound) (hstep : busy.step event = some after) :
    after.Sound := by
  cases event with
  | start directory binds node => exact hsound.start hstep
  | greet now session origin peer nonce => exact hsound.greet hstep
  | arrive serial bytes ended => exact hsound.arrive hstep
  | broadcast payload order => exact hsound.broadcast hstep
  | reconfigure settings => exact hsound.reconfigure hstep
  | stop => exact hsound.stop hstep
  | work index chance => exact hsound.work hstep

/-- Every run keeps everything sound. -/
theorem run {events : List Event} (hsound : busy.Sound) (hrun : busy.run events = some after) :
    after.Sound := by
  induction events generalizing busy with
  | nil =>
    obtain rfl := Option.some.inj hrun
    exact hsound
  | cons event later ih =>
    obtain ⟨next, hstep, hlater⟩ := Option.bind_eq_some_iff.1 hrun
    exact ih (hsound.step hstep) hlater

end Sound

/-- A link that does not ask for its place in the table any more never asks again. -/
theorem enter_not_mem_step {busy after : BusyManager} {event : Event} {serial : Nat}
    (hsound : busy.Sound) (hstep : busy.step event = some after)
    (hknown : (busy.manager.link? serial).isSome = true) (hasked : .enter serial ∉ busy.pending) :
    .enter serial ∉ after.pending := by
  cases event with
  | start directory binds node =>
    obtain ⟨session, -, -, rfl⟩ := step_start hstep
    exact hasked
  | greet now number origin peer nonce =>
    obtain ⟨session, -, -, -, hpending⟩ := step_greet hstep
    have hne : serial ≠ busy.manager.nextSerial := by
      rintro rfl
      simp [Manager.link?_nextSerial hsound.wired.numbered] at hknown
    rw [hpending]
    simp [hasked, hne]
  | arrive reached bytes ended =>
    obtain rfl := Option.some.inj hstep
    exact hasked
  | broadcast payload order =>
    obtain ⟨-, -, -, hpending⟩ := step_broadcast hstep
    rw [hpending]
    simp [hasked]
  | reconfigure settings =>
    obtain ⟨-, rfl⟩ := step_reconfigure hstep
    exact hasked
  | stop =>
    obtain ⟨session, -, rfl, hpending⟩ := step_stop hstep
    rw [hpending]
    simp [hasked]
  | work index chance =>
    obtain ⟨front, action, back, outcome, -, hperform, hpending, hpendingAfter, -⟩ :=
      step_work hstep
    rw [hpending] at hasked
    rw [hpendingAfter]
    intro henter
    exact hasked (Manager.mem_pending_of_kept (Manager.mem_of_begins hperform rfl henter))

end RegionGossip.BusyManager
