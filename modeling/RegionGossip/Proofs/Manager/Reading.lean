import RegionGossip.Manager.Run
import RegionGossip.Proofs.Manager.Changes

/-!
# What the links of a manager read

Every link has read a row of shares from the front of its stream, keeps the payload of the last of
them, and has not looked at the rest. No other task has anything to do with that, whatever becomes
of the link in the meantime.
-/

namespace RegionGossip

namespace Link

variable {settings : Settings} {chance : Chance} {serial : Nat} {action : Action}
  {before after : Link}

/-- What an action does to a link has nothing to do with reading, or it begins the read loop, or it
is a turn of the read loop. -/
theorem Change.aside (hchange : Change settings chance serial action before after) :
    Aside before after ∨ (action = .enter serial ∧ after = before.establish) ∨
      (action = .read serial ∧ before.readOnce chance = some after) := by
  cases hchange with
  | same => exact .inl ⟨rfl, rfl, rfl, rfl, id⟩
  | establish => exact .inr (.inl ⟨rfl, rfl⟩)
  | cancel hstate => exact .inl ⟨rfl, rfl, rfl, rfl, fun _ => rfl⟩
  | shut => exact .inl ⟨rfl, rfl, rfl, rfl, id⟩
  | terminate hends => exact .inl ⟨rfl, rfl, rfl, rfl, id⟩
  | read hread => exact .inr (.inr ⟨rfl, hread⟩)
  | send => exact .inl (aside_send ..)

end Link

namespace Manager

/-- How far the links of a manager have come with their streams. -/
structure Hears (manager : Manager) (pending : List Action) (breaks : Nat → IoFault → Prop)
    (stream : Nat → List UInt8) : Prop where
  /-- A link that still asks for its place in the table has not begun to read. -/
  fresh : ∀ {serial link}, .enter serial ∈ pending → manager.link? serial = some link →
    link.readLoop = .idle
  /-- A read loop that runs gets its turn. -/
  running : ∀ {serial link}, manager.link? serial = some link → link.readLoop = .running →
    .read serial ∈ pending
  heard : ∀ {serial link}, manager.link? serial = some link →
    ∃ shares rest, link.Heard (breaks serial) (stream serial) shares rest
  unknown : ∀ {serial}, manager.link? serial = none → stream serial = []

namespace Hears

variable {manager after : Manager} {pending front back : List Action}
  {breaks : Nat → IoFault → Prop} {stream : Nat → List UInt8}
  {chance : Chance} {action : Action} {outcome : Outcome}

/-- A read loop that runs after a turn, or because it was begun, gets another turn. -/
theorem mem_next_of_running {serial : Nat} {link : Link}
    (hfresh : action = .enter serial → ∀ old, manager.link? serial = some old →
      old.readLoop = .idle)
    (haction : action = .enter serial ∨ action = .read serial)
    (hperform : manager.perform chance action = some outcome)
    (hlink : outcome.manager.link? serial = some link) (hrunning : link.readLoop = .running) :
    .read serial ∈ outcome.next := by
  rcases haction with rfl | rfl
  · obtain ⟨old, hold, ⟨-, rfl⟩ | ⟨-, rfl⟩⟩ := perform_enter hperform
    · simp
    · have hidle := hfresh rfl link hlink
      rw [hrunning] at hidle
      contradiction
  · obtain ⟨old, read, hold, hread, hmanager, ⟨exit, hended, -⟩ | ⟨-, hnext, -⟩⟩ :=
      perform_read hperform
    · rw [hmanager] at hlink
      obtain rfl := eq_change hold hlink
        fun link => Link.serial_eq_of_identity (link.identity_readOnce_getD chance)
      rw [hread, Option.getD_some, hended] at hrunning
      contradiction
    · simp [hnext]

/-- An action keeps the links where they are with their streams, or takes one of them further. -/
theorem perform (hwired : Wired manager (front ++ action :: back))
    (hhears : Hears manager (front ++ action :: back) breaks stream)
    (hbreaks : ∀ serial fault, action = .read serial → chance.reading = .breakdown fault →
      breaks serial fault)
    (hperform : manager.perform chance action = some outcome) :
    Hears outcome.manager (front ++ (outcome.next ++ back)) breaks stream := by
  have hsame := (continues_perform hperform).links
  refine ⟨fun {serial link} henter hlink => ?_, fun {serial link} hlink hrunning => ?_,
    fun {serial link} hlink => ?_, fun {serial} hnone => ?_⟩
  · have hkept := mem_of_begins hperform rfl henter
    have hbefore : Action.enter serial ∈ front ++ action :: back := mem_pending_of_kept hkept
    have halone := not_mem_targets_of_alone (hwired.fresh hbefore).alone hkept
    exact hhears.fresh hbefore ((link?_perform hperform halone).symm.trans hlink)
  · obtain ⟨old, hold, -⟩ := hsame.exists_before hlink
    by_cases haction : action = .enter serial ∨ action = .read serial
    · refine mem_pending_of_next (mem_next_of_running (fun henter link hlink => ?_) haction hperform
        hlink hrunning)
      exact hhears.fresh (by simp [henter]) hlink
    · obtain ⟨henter, hread⟩ := not_or.1 haction
      rcases (change_perform hperform hold hlink).aside with haside | ⟨hown, -⟩ | ⟨hown, -⟩
      · exact mem_pending_of_ne (hhears.running hold (haside.readLoop ▸ hrunning)) (Ne.symm hread)
      · exact absurd hown henter
      · exact absurd hown hread
  · obtain ⟨old, hold, -⟩ := hsame.exists_before hlink
    obtain ⟨shares, rest, hheard⟩ := hhears.heard hold
    rcases (change_perform hperform hold hlink).aside with haside | ⟨rfl, rfl⟩ | ⟨rfl, hread⟩
    · exact ⟨shares, rest, hheard.aside haside⟩
    · exact ⟨shares, rest, hheard.establish (hhears.fresh (by simp) hold)⟩
    · exact hheard.readOnce (fun fault => hbreaks serial fault rfl) hread
  · refine hhears.unknown ?_
    cases hold : manager.link? serial with
    | none => rfl
    | some link =>
      obtain ⟨found, hfound, -⟩ := hsame.exists_after hold
      rw [hfound] at hnone
      contradiction

/-- Events that have nothing to do with reading leave the links where they are with their
streams. -/
theorem extend (hhears : Hears manager pending breaks stream) {more : List Action}
    (hsame : SameLinks manager after)
    (haside : ∀ {serial link}, after.link? serial = some link →
      ∃ old, manager.link? serial = some old ∧ Link.Aside old link)
    (hmore : ∀ serial, .enter serial ∉ more) : Hears after (pending ++ more) breaks stream := by
  refine ⟨fun {serial link} henter hlink => ?_, fun {serial link} hlink hrunning => ?_,
    fun {serial link} hlink => ?_, fun {serial} hnone => ?_⟩
  · obtain ⟨old, hold, hchange⟩ := haside hlink
    have hbefore := (List.mem_append.1 henter).resolve_right (hmore serial)
    exact hchange.readLoop.trans (hhears.fresh hbefore hold)
  · obtain ⟨old, hold, hchange⟩ := haside hlink
    exact List.mem_append_left _ (hhears.running hold (hchange.readLoop ▸ hrunning))
  · obtain ⟨old, hold, hchange⟩ := haside hlink
    obtain ⟨shares, rest, hheard⟩ := hhears.heard hold
    exact ⟨shares, rest, hheard.aside hchange⟩
  · refine hhears.unknown (Option.eq_none_iff_forall_ne_some.2 fun link hlink => ?_)
    obtain ⟨found, hfound, -⟩ := hsame.exists_after hlink
    exact absurd (hnone.symm.trans hfound) nofun

/-- Events that leave the links and what is pending as they are. -/
theorem keep (hhears : Hears manager pending breaks stream) (hlinks : after.links = manager.links) :
    Hears after pending breaks stream := by
  have hextended : Hears after (pending ++ []) breaks stream :=
    hhears.extend (.of_links_eq hlinks) (fun {serial link} hlink => ⟨link, by
      rwa [link?, ← hlinks], rfl, rfl, rfl, rfl, id⟩) fun serial => List.not_mem_nil
  rwa [List.append_nil] at hextended

/-- A new link has an empty stream. -/
theorem addLink (hwired : Wired manager pending) (hhears : Hears manager pending breaks stream)
    (now session : Nat) (peer : NodeId) (nonce : Int64) :
    Hears (manager.addLink (.opened manager.nextSerial peer nonce session now))
      (pending ++ [.enter manager.nextSerial]) breaks stream := by
  have hnew := link?_nextSerial hwired.numbered
  have hlinks (serial : Nat) :
      (manager.addLink (.opened manager.nextSerial peer nonce session now)).link? serial = _ :=
    link?_addLink hnew serial
  refine ⟨fun {serial link} henter hlink => ?_, fun {serial link} hlink hrunning => ?_,
    fun {serial link} hlink => ?_, fun {serial} hnone => ?_⟩
  · rw [hlinks] at hlink
    split at hlink
    · obtain rfl := Option.some.inj hlink
      rfl
    · rename_i hother
      have hne : serial ≠ manager.nextSerial := hother
      have hbefore : Action.enter serial ∈ pending :=
        (List.mem_append.1 henter).resolve_right (by simpa using hne)
      exact hhears.fresh hbefore hlink
  · rw [hlinks] at hlink
    split at hlink
    · obtain rfl := Option.some.inj hlink
      contradiction
    · exact List.mem_append_left _ (hhears.running hlink hrunning)
  · rw [hlinks] at hlink
    split at hlink
    · rename_i hsame
      obtain rfl := Option.some.inj hlink
      obtain rfl : serial = manager.nextSerial := hsame
      rw [hhears.unknown hnew]
      exact ⟨[], [], .opened ..⟩
    · exact hhears.heard hlink
  · rw [hlinks] at hnone
    split at hnone
    · contradiction
    · exact hhears.unknown hnone

/-- Bytes that arrive belong to the stream of the link that they reach. -/
theorem arrive (hhears : Hears manager pending breaks stream) (reached : Nat) (bytes : List UInt8)
    (ended : Bool) :
    Hears (manager.modifyLink reached fun link => link.arrive bytes ended) pending breaks
      fun serial => stream serial ++
        if (manager.link? serial).isSome then Event.arrived serial (.arrive reached bytes ended)
        else [] := by
  have hlinks (serial : Nat) := link?_modifyLink manager reached serial
    fun link => Link.serial_eq_of_identity (link.identity_arrive bytes ended)
  refine ⟨fun {serial link} henter hlink => ?_, fun {serial link} hlink hrunning => ?_,
    fun {serial link} hlink => ?_, fun {serial} hnone => ?_⟩
  · rw [hlinks] at hlink
    split at hlink
    · obtain ⟨old, hold, rfl⟩ := Option.map_eq_some_iff.1 hlink
      show old.readLoop = .idle
      exact hhears.fresh henter hold
    · exact hhears.fresh henter hlink
  · rw [hlinks] at hlink
    split at hlink
    · obtain ⟨old, hold, rfl⟩ := Option.map_eq_some_iff.1 hlink
      exact hhears.running hold hrunning
    · exact hhears.running hlink hrunning
  · rw [hlinks] at hlink
    split at hlink
    · rename_i hsame
      obtain ⟨old, hold, rfl⟩ := Option.map_eq_some_iff.1 hlink
      obtain ⟨shares, rest, hheard⟩ := hhears.heard hold
      rw [hold, Option.isSome_some, if_pos rfl, Event.arrived, if_pos hsame.symm]
      exact ⟨shares, rest ++ bytes, hheard.arrive bytes ended⟩
    · rename_i hother
      rw [Event.arrived, if_neg (Ne.symm hother), ite_self, List.append_nil]
      exact hhears.heard hlink
  · rw [hlinks] at hnone
    have hbefore : manager.link? serial = none := by
      split at hnone
      · exact Option.map_eq_none_iff.1 hnone
      · exact hnone
    rw [hbefore, hhears.unknown hbefore]
    rfl

end Hears

end Manager

namespace BusyManager

open Manager

variable {busy after : BusyManager} {breaks : Nat → IoFault → Prop}
  {stream : Nat → List UInt8}

/-- Nothing was heard before a manager was started. -/
theorem hears_idle (settings : Settings) (timing : Timing) :
    (idle settings timing).manager.Hears (idle settings timing).pending breaks fun _ => [] where
  fresh henter := absurd henter List.not_mem_nil
  running hlink := absurd hlink nofun
  heard hlink := absurd hlink nofun
  unknown _ := rfl

/-- Every event keeps the links where they are with their streams, or takes one of them further. -/
theorem hears_step {event : Event} (hsound : busy.Sound)
    (hhears : busy.manager.Hears busy.pending breaks stream)
    (hbreaks : ∀ serial fault, busy.Breaks serial fault event → breaks serial fault)
    (hstep : busy.step event = some after) :
    after.manager.Hears after.pending breaks fun serial => stream serial ++
      if (busy.manager.link? serial).isSome then event.arrived serial else [] := by
  -- only arriving bytes belong to a stream
  have hsilent (harrived : ∀ serial, event.arrived serial = [])
      (hafter : after.manager.Hears after.pending breaks stream) :
      after.manager.Hears after.pending breaks fun serial => stream serial ++
        if (busy.manager.link? serial).isSome then event.arrived serial else [] := by
    simpa [harrived] using hafter
  cases event with
  | start directory binds node =>
    refine hsilent (fun _ => rfl) ?_
    obtain ⟨session, -, -, rfl⟩ := step_start hstep
    exact hhears.keep rfl
  | greet now number origin peer nonce =>
    refine hsilent (fun _ => rfl) ?_
    obtain ⟨session, -, -, rfl, hpending⟩ := step_greet hstep
    rw [hpending]
    exact hhears.addLink hsound.wired now session.number peer nonce
  | arrive reached bytes ended =>
    obtain rfl := Option.some.inj hstep
    exact hhears.arrive reached bytes ended
  | broadcast payload order =>
    refine hsilent (fun _ => rfl) ?_
    obtain ⟨hmanager, -, -, hpending⟩ := step_broadcast hstep
    rw [hmanager, hpending]
    exact hhears.extend rfl (fun {serial link} hlink => ⟨link, hlink, rfl, rfl, rfl, rfl, id⟩)
      (by simp)
  | reconfigure settings =>
    refine hsilent (fun _ => rfl) ?_
    obtain ⟨-, rfl⟩ := step_reconfigure hstep
    exact hhears.keep rfl
  | stop =>
    refine hsilent (fun _ => rfl) ?_
    obtain ⟨session, -, rfl, hpending⟩ := step_stop hstep
    rw [hpending]
    refine hhears.extend (sameLinks_halted ..) (fun {serial link} hlink => ?_) (by simp)
    rw [link?_halted] at hlink
    obtain ⟨old, hold, rfl⟩ := Option.map_eq_some_iff.1 hlink
    refine ⟨old, hold, ?_⟩
    split
    · exact ⟨rfl, rfl, rfl, rfl, fun _ => rfl⟩
    · exact ⟨rfl, rfl, rfl, rfl, id⟩
  | work index chance =>
    refine hsilent (fun _ => rfl) ?_
    obtain ⟨front, action, back, outcome, hfirst, hperform, hpending, hpendingAfter, hmanager, -⟩ :=
      step_work hstep
    have hwired := hsound.wired
    rw [hpending] at hwired hhears
    rw [hpendingAfter, hmanager]
    refine hhears.perform hwired (fun serial fault hread hfault => ?_) hperform
    exact hbreaks serial fault ⟨index, chance, rfl, hfault, hread ▸ hfirst⟩

/-- A connection that breaks in the first event of a run breaks in its course. -/
theorem Breaks.broke {serial : Nat} {fault : IoFault} {event : Event}
    (hbreaks : busy.Breaks serial fault event) (later : List Event) :
    busy.Broke serial (event :: later) fault :=
  ⟨[], event, later, busy, rfl, rfl, hbreaks⟩

/-- A connection that breaks later in a run breaks in its course. -/
theorem Broke.cons {serial : Nat} {fault : IoFault} {event : Event} {later : List Event}
    (hstep : busy.step event = some after) (hbroke : after.Broke serial later fault) :
    busy.Broke serial (event :: later) fault := by
  obtain ⟨front, breaking, back, before, rfl, hfront, hbreaks⟩ := hbroke
  exact ⟨event :: front, breaking, back, before, rfl, by rw [run, hstep, Option.bind_some, hfront],
    hbreaks⟩

/-- After any run the links are as far with their streams as they can be. -/
theorem hears_run {events : List Event} (hsound : busy.Sound)
    (hhears : busy.manager.Hears busy.pending breaks stream)
    (hbreaks : ∀ serial fault, busy.Broke serial events fault → breaks serial fault)
    (hrun : busy.run events = some after) :
    after.manager.Hears after.pending breaks fun serial =>
      stream serial ++ busy.received serial events := by
  induction events generalizing busy stream with
  | nil =>
    obtain rfl := Option.some.inj hrun
    simpa [received] using hhears
  | cons event later ih =>
    obtain ⟨next, hstep, hlater⟩ := Option.bind_eq_some_iff.1 hrun
    have hnext := hears_step hsound hhears
      (fun serial fault hbreaking => hbreaks serial fault (hbreaking.broke later)) hstep
    have hrest := ih (hsound.step hstep) hnext
      (fun serial fault hbroke => hbreaks serial fault (.cons hstep hbroke)) hlater
    simpa [received, hstep] using hrest

end BusyManager

end RegionGossip
