import RegionGossip.Proofs.Manager.Verdicts

/-!
# The links in the table are in use

A link is closed or marked as terminated only after the table has let go of it, or without ever having
been in it. So a link that the table holds is connected, unless a message could not be sent on it and
it is about to be dropped.
-/

namespace RegionGossip

/-- The links that an action closes or marks as terminated. -/
def Action.parts : Action → List Nat
  | .close _ serial | .shut _ serial | .terminate serial | .bury serial _ => [serial]
  | .finish _ serials => serials
  | _ => []

/-- An action means the links that it closes or marks as terminated. -/
theorem Action.mem_targets_of_parts {action : Action} {serial : Nat}
    (hparts : serial ∈ action.parts) : serial ∈ action.targets := by
  cases action with
  | close | shut | terminate | bury | finish => exact hparts
  | _ => exact absurd hparts List.not_mem_nil

/-- What an action marks as terminated is among what it parts from the table. -/
theorem Action.mem_parts_of_ends {action : Action} {serial : Nat} (hends : serial ∈ action.ends) :
    serial ∈ action.parts := by
  cases action with
  | terminate | bury | finish => exact hends
  | _ => exact absurd hends List.not_mem_nil

namespace Link

variable {link : Link}

/-- Reading leaves the state of a link as it is. -/
theorem state_readOnce {after : Link} {chance : Chance} (hread : link.readOnce chance = some after) :
    after.state = link.state := by
  rw [readOnce] at hread
  split at hread
  · rw [takeFrame] at hread
    split at hread
    · contradiction
    · rename_i content rest _
      obtain rfl := Option.some.inj hread
      rcases Wire.decodeMessage content with error | payload | _ <;> rfl
    · obtain rfl := Option.some.inj hread
      rfl
  · split at hread
    · obtain rfl := Option.some.inj hread
      rfl
    · contradiction
  · obtain rfl := Option.some.inj hread
    rfl
  · contradiction

/-- Writing leaves the state of a link as it is, or fails. -/
theorem state_write (link : Link) (body : List UInt8) (writes : Bool) :
    (link.write body writes).2.state = link.state ∨
      ((link.write body writes).2.state = .terminating ∧
        ∃ error, (link.write body writes).1 = .failed error) := by
  rw [write]
  split
  · split
    · split
      · exact .inl rfl
      · exact .inr ⟨rfl, _, rfl⟩
    · exact .inr ⟨rfl, _, rfl⟩
  · exact .inl rfl

/-- Sending leaves the state of a link as it is, or fails. -/
theorem state_send (link : Link) (settings : Settings) (payload : Payload) (coin writes : Bool) :
    (link.send settings payload coin writes).2.state = link.state ∨
      ((link.send settings payload coin writes).2.state = .terminating ∧
        ∃ error, (link.send settings payload coin writes).1 = .failed error) := by
  rw [send, sendBy]
  split
  · split
    · exact .inl rfl
    · exact .inl rfl
    · exact state_write ..
  · exact .inl rfl

end Link

namespace Manager

variable {manager : Manager} {pending front back : List Action} {chance : Chance} {action : Action}
  {outcome : Outcome}

/-- A link that is given its place is found there, in use. -/
theorem link?_established {link : Link} (hlink : manager.link? link.serial = some link) :
    (manager.established link).link? link.serial = some link.establish := by
  have hchanged : (manager.modifyLink link.serial Link.establish).link? link.serial = _ :=
    link?_modifyLink manager link.serial link.serial fun _ => rfl
  rw [if_pos rfl, hlink] at hchanged
  exact hchanged

/-- What a manager has to do with the links in its table. -/
structure Standing (manager : Manager) (pending : List Action) : Prop where
  /-- What is to be closed or marked as terminated is not in the table. -/
  parted : ∀ action ∈ pending, ∀ serial ∈ action.parts, ∀ peer,
    manager.table.get? peer ≠ some serial
  connected : ∀ {peer serial link}, manager.table.get? peer = some serial →
    manager.link? serial = some link →
    link.state = .connected ∨ (link.state ≠ .terminated ∧ .drop serial ∈ pending)

namespace Standing

/-- What was parted from the table does not come back into it. -/
theorem parted_of_before (hwired : Wired manager (front ++ action :: back))
    (hstanding : Standing manager (front ++ action :: back))
    (hperform : manager.perform chance action = some outcome) {other : Action}
    (hother : other ∈ front ++ action :: back) {serial : Nat} (hparts : serial ∈ other.parts)
    (peer : NodeId) : outcome.manager.table.get? peer ≠ some serial := by
  intro hget
  rcases hwired.get?_perform hperform hget with hbefore | ⟨rfl, -⟩
  · exact hstanding.parted other hother serial hparts peer hbefore
  · -- a link that asks for its place is meant by no other action
    have hfresh : Fresh manager (front ++ .enter serial :: back) serial := hwired.fresh (by simp)
    have halone := hfresh.alone
    obtain ⟨-, hfront, hback⟩ := eq_of_filter_singleton halone (by simp [Action.targets])
    have htarget := Action.mem_targets_of_parts hparts
    rcases List.mem_append.1 hother with hmem | hmem
    · exact List.filter_eq_nil_iff.1 hfront other hmem (by simpa using htarget)
    · rcases List.mem_cons.1 hmem with rfl | hmem
      · exact List.not_mem_nil hparts
      · exact List.filter_eq_nil_iff.1 hback other hmem (by simpa using htarget)

/-- What follows from an action parts no link that is in the table after it. -/
theorem parted_of_next (hwired : Wired manager (front ++ action :: back))
    (hstanding : Standing manager (front ++ action :: back))
    (hperform : manager.perform chance action = some outcome) {next : Action}
    (hnext : next ∈ outcome.next) {serial : Nat} (hparts : serial ∈ next.parts) (peer : NodeId) :
    outcome.manager.table.get? peer ≠ some serial := by
  have haction : action ∈ front ++ action :: back := by simp
  have hreleased {link : Link} (hlink : manager.link? serial = some link)
      (hmanager : outcome.manager = manager.release link) :
      outcome.manager.table.get? peer ≠ some serial := by
    rw [hmanager, hwired.get?_release hlink]
    intro hget
    have hne := (Option.filter_eq_some_iff.1 hget).2
    simp at hne
  have hrefused {link : Link} (henter : action = .enter serial)
      (hlink : manager.link? serial = some link)
      (hrefuses : manager.accepts chance.now link = false) :
      outcome.manager.table.get? peer ≠ some serial := by
    intro hget
    rcases hwired.get?_perform hperform hget with hbefore | ⟨-, found, hfound, haccepts, -⟩
    · exact (hwired.fresh (henter ▸ haction)).absent peer hbefore
    · obtain rfl : link = found := Option.some.inj (hlink.symm.trans hfound)
      rw [hrefuses] at haccepts
      contradiction
  cases follows_of_next hperform hnext with
  | @displaced entered link old hlink haccepts hold =>
    obtain rfl : serial = old := List.mem_singleton.1 hparts
    have habsent := (hwired.fresh haction).absent
    obtain ⟨found, hfound, ⟨-, rfl⟩ | ⟨hrefuses, -⟩⟩ := perform_enter hperform
    · obtain rfl : link = found := Option.some.inj (hlink.symm.trans hfound)
      show (manager.table.insert link.peer link.serial).get? peer ≠ some serial
      rw [SortedMap.get?_insert]
      split
      · rw [serial_of_link? hlink]
        rintro ⟨⟩
        exact habsent _ hold
      · rename_i hother
        exact fun hget => hother (hwired.compare_of_get? hget hold)
    · obtain rfl : link = found := Option.some.inj (hlink.symm.trans hfound)
      rw [haccepts] at hrefuses
      contradiction
  | refused hlink hrefuses =>
    obtain rfl := List.mem_singleton.1 hparts
    exact hrefused rfl hlink hrefuses
  | rejected hlink hrefuses =>
    obtain rfl := List.mem_singleton.1 hparts
    exact hrefused rfl hlink hrefuses
  | shut => exact parted_of_before hwired hstanding hperform haction hparts peer
  | left | bury =>
    obtain rfl := List.mem_singleton.1 hparts
    obtain ⟨link, hlink, rfl⟩ := perform_leave hperform
    exact hreleased hlink rfl
  | dropped =>
    obtain rfl := List.mem_singleton.1 hparts
    obtain ⟨link, hlink, rfl⟩ := perform_drop hperform
    exact hreleased hlink rfl
  | drained | finish =>
    obtain rfl := Option.some.inj hperform
    exact nofun
  | accepted | again | exited | retain | failed => exact absurd hparts List.not_mem_nil

/-- A link that is dropped is not in the table. -/
theorem mem_drop_of_held (hwired : Wired manager (front ++ action :: back))
    (hperform : manager.perform chance action = some outcome) {peer : NodeId} {serial : Nat}
    (hdrop : .drop serial ∈ front ++ action :: back)
    (hget : outcome.manager.table.get? peer = some serial) :
    .drop serial ∈ front ++ (outcome.next ++ back) := by
  refine mem_pending_of_ne hdrop ?_
  rintro rfl
  obtain ⟨link, hlink, rfl⟩ := perform_drop hperform
  rw [hwired.get?_release hlink] at hget
  have hne := (Option.filter_eq_some_iff.1 hget).2
  simp at hne

/-- An action leaves the links that stay in the table connected, or they are about to be dropped. -/
theorem perform (hwired : Wired manager (front ++ action :: back))
    (hstanding : Standing manager (front ++ action :: back))
    (hperform : manager.perform chance action = some outcome) :
    Standing outcome.manager (front ++ (outcome.next ++ back)) := by
  refine ⟨fun other hother serial hparts => ?_, fun {peer serial link} hget hlink => ?_⟩
  · rcases mem_kept_or_next hother with hkept | hnext
    · exact parted_of_before hwired hstanding hperform (mem_pending_of_kept hkept) hparts
    · exact parted_of_next hwired hstanding hperform hnext hparts
  · obtain ⟨old, hold, -⟩ := (continues_perform hperform).links.exists_before hlink
    have hunparted (hparts : serial ∈ action.parts) : False :=
      parted_of_before hwired hstanding hperform (by simp) hparts peer hget
    have hsame (hstate : link.state = old.state) (hentered : action ≠ .enter serial) :
        link.state = .connected ∨
          (link.state ≠ .terminated ∧ .drop serial ∈ front ++ (outcome.next ++ back)) := by
      have hheld := (hwired.get?_perform hperform hget).resolve_right fun h => hentered h.1
      rw [hstate]
      exact (hstanding.connected hheld hold).imp_right fun ⟨hlive, hdrop⟩ =>
        ⟨hlive, mem_drop_of_held hwired hperform hdrop hget⟩
    by_cases hentered : action = .enter serial
    · subst hentered
      obtain ⟨found, hfound, ⟨-, rfl⟩ | ⟨hrefuses, rfl⟩⟩ := perform_enter hperform
      · obtain rfl := serial_of_link? hfound
        obtain rfl := Option.some.inj ((link?_established hfound).symm.trans hlink)
        exact .inl rfl
      · exact absurd hget ((hwired.fresh (by simp)).absent peer)
    cases change_perform hperform hold hlink with
    | same => exact hsame rfl hentered
    | establish => exact .inl rfl
    | cancel | shut => exact (hunparted List.mem_cons_self).elim
    | terminate hends => exact (hunparted (Action.mem_parts_of_ends hends)).elim
    | read hread => exact hsame (Link.state_readOnce hread) hentered
    | @send payload =>
      rcases old.state_send manager.settings payload chance.coin chance.writes with hstate |
        ⟨hstate, error, hfailed⟩
      · exact hsame hstate hentered
      · obtain ⟨found, hfound, -, ⟨-, -, hnext, -⟩ | ⟨hdelivered, -⟩⟩ := perform_send hperform
        · exact .inr ⟨by rw [hstate]; exact nofun, mem_pending_of_next (by simp [hnext])⟩
        · obtain rfl : old = found := Option.some.inj (hold.symm.trans hfound)
          exact absurd hfailed (hdelivered error)

end Standing

end Manager

namespace BusyManager

open Manager

variable {busy after : BusyManager}

/-- What happens outside the tasks parts no link from the table. -/
theorem standing_outside {more : List Action} {marks : List Mark}
    (hstanding : busy.manager.Standing busy.pending) (hwired : busy.manager.Wired busy.pending)
    (houtside : Outside busy after more marks) : after.manager.Standing after.pending := by
  refine ⟨fun action haction serial hparts => ?_, fun {peer serial link} hget hlink => ?_⟩
  · have hlater : action.begins = false := by
      cases action with
      | enter | send | drain => exact absurd hparts List.not_mem_nil
      | _ => rfl
    rw [houtside.table]
    exact hstanding.parted action (houtside.mem_pending hlater haction) serial hparts
  · rw [houtside.table] at hget
    obtain ⟨old, hold, -⟩ := hwired.held hget
    obtain ⟨next, hnext, hpassed⟩ := houtside.kept hold
    obtain rfl : link = next := Option.some.inj (hlink.symm.trans hnext)
    rw [hpassed.state]
    exact (hstanding.connected hget hold).imp_right fun ⟨hlive, hdrop⟩ =>
      ⟨hlive, houtside.mem_pending_of_before hdrop⟩

/-- Every event leaves the links that stay in the table connected, or they are about to be
dropped. -/
theorem standing_step {event : Event} (hsound : busy.Sound)
    (hstanding : busy.manager.Standing busy.pending) (hstep : busy.step event = some after) :
    after.manager.Standing after.pending := by
  rcases outside_or_turned hsound hstep with ⟨more, marks, houtside⟩ |
    ⟨front, back, action, chance, outcome, hturned⟩
  · exact standing_outside hstanding hsound.wired houtside
  · obtain ⟨hperform, hbefore, hpending, hmanager, -⟩ := hturned
    have hwired := hsound.wired
    rw [hbefore] at hwired hstanding
    rw [hmanager, hpending]
    exact hstanding.perform hwired hperform

/-- Nothing was in the table before a manager was started. -/
theorem standing_idle (settings : Settings) (timing : Timing) :
    (idle settings timing).manager.Standing (idle settings timing).pending :=
  ⟨fun _ haction => absurd haction List.not_mem_nil, fun hget => absurd hget nofun⟩

end BusyManager

end RegionGossip
