import RegionGossip.Proofs.Manager.Standing

/-!
# Who is told that a link is closed

A neighbour is told by a last frame on its link, before the write half of the link is given up. The
table lets go of a link in one of three ways. If the read loop of the link has ended, or a message
could not be sent on it, nobody is told. If another link takes its place, or a stop empties the
table, the link is closed with a word to the neighbour, unless its own task was faster. A stop
cancels the read loops before it empties the table, and with every pause that it makes it gives them
the chance to be faster.
-/

namespace RegionGossip

/-- The neighbour of a link was told by the last frame on it, and nothing more can be written. -/
structure Link.Dismissed (link : Link) : Prop where
  shut : link.writable = false
  told : ∃ settings, Wire.frame (Wire.encodeClose settings) <:+ link.sent

/-- A link keeps its write half, or has none before and after; then nothing is written. -/
structure Link.Quiet (before after : Link) : Prop where
  writable : after.writable = before.writable
  sent : before.writable = false → after.sent = before.sent

/-- The link that an action closes without a word to the neighbour, or buries. -/
def Action.withdraws : Action → Option Nat
  | .close false serial | .shut false serial | .bury serial _ => some serial
  | _ => none

/-- No task begins with withdrawing a link. -/
theorem Action.begins_of_withdraws {action : Action} {serial : Nat}
    (hwithdraws : action.withdraws = some serial) : action.begins = false := by
  cases action with
  | enter | send | drain => contradiction
  | _ => rfl

namespace Link

variable {before after link : Link}

/-! ## The write half of a link -/

/-- Taking a frame has nothing to do with writing. -/
theorem quiet_takeFrame {now : Nat} (htake : link.takeFrame now = some after) :
    Quiet link after := by
  rw [takeFrame] at htake
  split at htake
  · contradiction
  · rename_i content rest _
    obtain rfl := Option.some.inj htake
    rcases Wire.decodeMessage content with error | payload | _ <;> exact ⟨rfl, fun _ => rfl⟩
  · obtain rfl := Option.some.inj htake
    exact ⟨rfl, fun _ => rfl⟩

/-- A turn of the read loop has nothing to do with writing. -/
theorem quiet_readOnce {chance : Chance} (hread : link.readOnce chance = some after) :
    Quiet link after := by
  rw [readOnce] at hread
  split at hread
  · exact quiet_takeFrame hread
  · split at hread
    · obtain rfl := Option.some.inj hread
      exact ⟨rfl, fun _ => rfl⟩
    · contradiction
  · obtain rfl := Option.some.inj hread
    exact ⟨rfl, fun _ => rfl⟩
  · contradiction

/-- Without a write half nothing is written. -/
theorem quiet_write (link : Link) (body : List UInt8) (writes : Bool) :
    Quiet link (link.write body writes).2 := by
  rw [write]
  split
  · rename_i hwritable
    have hnever {sent : List UInt8} (hshut : link.writable = false) : sent = link.sent := by
      rw [hwritable] at hshut
      contradiction
    split
    · split <;> exact ⟨rfl, hnever⟩
    · exact ⟨rfl, hnever⟩
  · exact ⟨rfl, fun _ => rfl⟩

/-- Without a write half nothing is sent. -/
theorem quiet_send (link : Link) (settings : Settings) (payload : Payload) (coin writes : Bool) :
    Quiet link (link.send settings payload coin writes).2 := by
  rw [send, sendBy]
  split
  · split
    · exact ⟨rfl, fun _ => rfl⟩
    · exact ⟨rfl, fun _ => rfl⟩
    · exact quiet_write ..
  · exact ⟨rfl, fun _ => rfl⟩

/-- Only shutting a link takes its write half away. -/
theorem Change.shut_or_quiet {settings : Settings} {chance : Chance} {serial : Nat}
    {action : Action} (hchange : Change settings chance serial action before after) :
    (∃ notify, action = .shut notify serial ∧ after = before.shut settings notify) ∨
      Quiet before after := by
  cases hchange with
  | same | establish | cancel | terminate => exact .inr ⟨rfl, fun _ => rfl⟩
  | shut => exact .inl ⟨_, rfl, rfl⟩
  | read hread => exact .inr (quiet_readOnce hread)
  | send => exact .inr (quiet_send ..)

/-- Who was told stays told. -/
theorem Dismissed.of_quiet (hdismissed : before.Dismissed) (hquiet : Quiet before after) :
    after.Dismissed :=
  ⟨hquiet.writable.trans hdismissed.shut, by
    rw [hquiet.sent hdismissed.shut]
    exact hdismissed.told⟩

/-- A link that has its write half is shut with a word to the neighbour. -/
theorem dismissed_shut (hwritable : link.writable = true) (settings : Settings) :
    (link.shut settings true).Dismissed := by
  refine ⟨rfl, settings, ?_⟩
  rw [shut, hwritable]
  exact List.suffix_append ..

/-- Nothing that happens to a link takes back that its neighbour was told. -/
theorem Dismissed.change {settings : Settings} {chance : Chance} {serial : Nat} {action : Action}
    (hdismissed : before.Dismissed) (hchange : Change settings chance serial action before after) :
    after.Dismissed := by
  rcases hchange.shut_or_quiet with ⟨notify, -, rfl⟩ | hquiet
  · refine ⟨rfl, ?_⟩
    rw [Link.shut, hdismissed.shut]
    exact hdismissed.told
  · exact hdismissed.of_quiet hquiet

end Link

namespace Manager

/-! ## What an action keeps -/

/-- The neighbour of a link was told. -/
def Told (manager : Manager) (serial : Nat) : Prop :=
  ∃ link, manager.link? serial = some link ∧ link.Dismissed

/-- Nothing more is to be said to the neighbour of a link: it was told, or the table was told to let
go of the link by the task that reads it or by one that could not send on it. -/
def Excused (manager : Manager) (trace : List Mark) (serial : Nat) : Prop :=
  .left serial ∈ trace ∨ manager.Told serial

/-- What a manager has to do with the neighbours of its links. -/
structure Courteous (manager : Manager) (pending : List Action) (trace : List Mark) : Prop where
  withdrawn : ∀ action ∈ pending, ∀ {serial}, action.withdraws = some serial → .left serial ∈ trace
  shut : ∀ {serial link}, manager.link? serial = some link → link.writable = false →
    Excused manager trace serial
  terminated : ∀ {serial link}, manager.link? serial = some link → link.state = .terminated →
    Excused manager trace serial ∨ ∃ peer, .refused peer serial ∈ trace
  /-- A link that was accepted has its place, or it is about to be closed with a word. -/
  accepted : ∀ {serial}, Accepted trace serial →
    (∃ peer, manager.table.get? peer = some serial) ∨ Excused manager trace serial ∨
      .close true serial ∈ pending ∨ .shut true serial ∈ pending

variable {manager : Manager} {pending front back : List Action} {trace : List Mark}
  {chance : Chance} {action : Action} {outcome : Outcome} {serial : Nat}

/-- Who was told stays told. -/
theorem Told.perform (htold : manager.Told serial)
    (hperform : manager.perform chance action = some outcome) : outcome.manager.Told serial := by
  obtain ⟨link, hlink, hdismissed⟩ := htold
  obtain ⟨after, hafter, -⟩ := (continues_perform hperform).links.exists_after hlink
  exact ⟨after, hafter, hdismissed.change (change_perform hperform hlink hafter)⟩

/-- No action gives a manager anything more to say. -/
theorem Excused.perform (hexcused : Excused manager trace serial)
    (hperform : manager.perform chance action = some outcome) :
    Excused outcome.manager (outcome.marks ++ trace) serial :=
  hexcused.imp (List.mem_append_right _) (·.perform hperform)

/-- A link leaves its place because of its own task or of a message that could not be sent, or it is
to be closed with a word. -/
theorem Wired.leaves_place (hwired : Wired manager pending)
    (hperform : manager.perform chance action = some outcome) {peer : NodeId}
    (hget : manager.table.get? peer = some serial) :
    outcome.manager.table.get? peer = some serial ∨ .left serial ∈ outcome.marks ∨
      .close true serial ∈ outcome.next := by
  rcases table_perform hperform with ⟨htable, -⟩ |
    ⟨entered, link, rfl, hlink, haccepts, htable, -⟩ |
    ⟨gone, link, -, hlink, hmanager, hmarks⟩ | ⟨session, rfl, -, -⟩
  · exact .inl (htable ▸ hget)
  · by_cases hsame : compare peer link.peer = .eq
    · rw [manager.table.get?_congr hsame] at hget
      rw [perform_enter_of_link hlink, if_pos haccepts] at hperform
      obtain rfl := Option.some.inj hperform
      exact .inr (.inr (by simp [hget]))
    · exact .inl (by rw [htable, SortedMap.get?_insert, if_neg hsame, hget])
  · by_cases hgone : serial = gone
    · exact .inr (.inl (by simp [hmarks, hgone]))
    · refine .inl ?_
      rw [hmanager, hwired.get?_release hlink, hget, Option.filter_some_pos (by simpa using hgone)]
  · obtain rfl := Option.some.inj hperform
    have hvisited : serial ∈ manager.visits chance.order :=
      mem_visits_iff.2 (manager.table.mem_values_iff.2 ⟨peer, hget⟩)
    exact .inr (.inr (List.mem_append_left _ (List.mem_map_of_mem hvisited)))

namespace Courteous

/-- An accepted link that is closed with a word is shut with one, unless it is excused. -/
theorem excused_or_shut (hcourteous : Courteous manager pending trace)
    (hjudged : Judged manager pending trace) (haccepted : Accepted trace serial)
    (hperform : manager.perform chance (.close true serial) = some outcome) :
    Excused manager trace serial ∨ .shut true serial ∈ outcome.next := by
  obtain ⟨link, hlink, ⟨hstate, -⟩ | ⟨-, rfl⟩⟩ := perform_close hperform
  · refine .inl ((hcourteous.terminated hlink hstate).resolve_right fun ⟨peer, hrefused⟩ => ?_)
    exact hjudged.unrefused haccepted peer hrefused
  · exact .inr List.mem_cons_self

/-- Whoever is to be told by a link that is shut is told, or was excused. -/
theorem excused_of_shut (hcourteous : Courteous manager pending trace)
    (hwired : Wired manager pending) (hmem : .shut true serial ∈ pending)
    (hperform : manager.perform chance (.shut true serial) = some outcome) :
    Excused outcome.manager (outcome.marks ++ trace) serial := by
  obtain ⟨link, hlink⟩ := Option.isSome_iff_exists.1 (hwired.known _ hmem serial List.mem_cons_self)
  cases hwritable : link.writable with
  | false => exact (hcourteous.shut hlink hwritable).perform hperform
  | true =>
    obtain ⟨after, hafter, -⟩ := (continues_perform hperform).links.exists_after hlink
    obtain rfl := Option.some.inj hperform
    obtain rfl := eq_change hlink hafter fun _ => rfl
    exact .inr ⟨_, hafter, Link.dismissed_shut hwritable manager.settings⟩

/-- What is withdrawn after an action was told to leave the table. -/
theorem withdrawn_perform (hcourteous : Courteous manager (front ++ action :: back) trace)
    (hperform : manager.perform chance action = some outcome) {other : Action}
    (hother : other ∈ front ++ (outcome.next ++ back))
    (hwithdraws : other.withdraws = some serial) : .left serial ∈ outcome.marks ++ trace := by
  rcases mem_kept_or_next hother with hkept | hnext
  · exact List.mem_append_right _
      (hcourteous.withdrawn other (mem_pending_of_kept hkept) hwithdraws)
  cases follows_of_next hperform hnext with
  | @shut notify closed =>
    cases notify with
    | true => contradiction
    | false =>
      obtain rfl := Option.some.inj hwithdraws
      exact List.mem_append_right _ (hcourteous.withdrawn (.close false closed) (by simp) rfl)
  | left | bury =>
    obtain rfl := Option.some.inj hwithdraws
    obtain ⟨link, -, rfl⟩ := perform_leave hperform
    exact List.mem_cons_self
  | dropped =>
    obtain rfl := Option.some.inj hwithdraws
    obtain ⟨link, -, rfl⟩ := perform_drop hperform
    exact List.mem_cons_self
  | _ => contradiction

/-- An action leaves no link without its write half whose neighbour is to be told. -/
theorem shut_perform (hcourteous : Courteous manager (front ++ action :: back) trace)
    (hperform : manager.perform chance action = some outcome) {link : Link}
    (hlink : outcome.manager.link? serial = some link) (hshut : link.writable = false) :
    Excused outcome.manager (outcome.marks ++ trace) serial := by
  obtain ⟨old, hold, -⟩ := (continues_perform hperform).links.exists_before hlink
  have hbefore (hwritable : old.writable = false) :
      Excused outcome.manager (outcome.marks ++ trace) serial :=
    (hcourteous.shut hold hwritable).perform hperform
  rcases (change_perform hperform hold hlink).shut_or_quiet with ⟨notify, rfl, rfl⟩ | hquiet
  · cases hwritable : old.writable with
    | false => exact hbefore hwritable
    | true =>
      cases notify with
      | true => exact .inr ⟨_, hlink, Link.dismissed_shut hwritable manager.settings⟩
      | false =>
        have hleft := hcourteous.withdrawn (.shut false serial) (by simp) rfl
        exact .inl (List.mem_append_right _ hleft)
  · exact hbefore (hquiet.writable.symm.trans hshut)

/-- An action marks no link as terminated whose neighbour is to be told, as long as a stop has told
everyone before its last step. -/
theorem terminated_perform (hcourteous : Courteous manager (front ++ action :: back) trace)
    (hjudged : Judged manager (front ++ action :: back) trace)
    (hfinish : ∀ session serials, action = .finish session serials →
      ∀ serial ∈ serials, Excused manager trace serial)
    (hperform : manager.perform chance action = some outcome) {link : Link}
    (hlink : outcome.manager.link? serial = some link) (hstate : link.state = .terminated) :
    Excused outcome.manager (outcome.marks ++ trace) serial ∨
      ∃ peer, .refused peer serial ∈ outcome.marks ++ trace := by
  obtain ⟨old, hold, -⟩ := (continues_perform hperform).links.exists_before hlink
  have hbefore (hsame : link.state = old.state) :
      Excused outcome.manager (outcome.marks ++ trace) serial ∨
        ∃ peer, .refused peer serial ∈ outcome.marks ++ trace :=
    (hcourteous.terminated hold (hsame ▸ hstate)).imp (·.perform hperform)
      fun ⟨peer, hrefused⟩ => ⟨peer, List.mem_append_right _ hrefused⟩
  cases change_perform hperform hold hlink with
  | same => exact hbefore rfl
  | establish | cancel => contradiction
  | shut => exact hbefore rfl
  | terminate hends =>
    cases action with
    | terminate gone =>
      obtain rfl := List.mem_singleton.1 hends
      obtain ⟨peer, hrefused⟩ := hjudged.refused (List.mem_append_right front List.mem_cons_self)
      exact .inr ⟨peer, List.mem_append_right _ hrefused⟩
    | bury gone released =>
      obtain rfl := List.mem_singleton.1 hends
      have hleft := hcourteous.withdrawn (.bury serial released) (by simp) rfl
      exact .inl (.inl (List.mem_append_right _ hleft))
    | finish session serials =>
      exact .inl ((hfinish session serials rfl serial hends).perform hperform)
    | _ => exact absurd hends List.not_mem_nil
  | read hread => exact hbefore (Link.state_readOnce hread)
  | @send payload =>
    rcases old.state_send manager.settings payload chance.coin chance.writes with hsame |
      ⟨hfailed, -⟩
    · exact hbefore hsame
    · rw [hfailed] at hstate
      contradiction

/-- An action leaves every accepted link in its place, excused or about to be closed with a word. -/
theorem accepted_perform (hwired : Wired manager (front ++ action :: back))
    (hcourteous : Courteous manager (front ++ action :: back) trace)
    (hjudged : Judged manager (front ++ action :: back) trace)
    (hperform : manager.perform chance action = some outcome)
    (haccepted : Accepted (outcome.marks ++ trace) serial) :
    (∃ peer, outcome.manager.table.get? peer = some serial) ∨
      Excused outcome.manager (outcome.marks ++ trace) serial ∨
        .close true serial ∈ front ++ (outcome.next ++ back) ∨
          .shut true serial ∈ front ++ (outcome.next ++ back) := by
  obtain ⟨other, hmem⟩ := haccepted
  rcases List.mem_append.1 hmem with hnew | hold
  · -- the link has just been given its place
    obtain rfl := ((marks_perform hperform).2 _ hnew).2 serial rfl
    obtain ⟨link, hlink, ⟨-, rfl⟩ | ⟨-, rfl⟩⟩ := perform_enter hperform
    · refine .inl ⟨link.peer, ?_⟩
      show (manager.table.insert link.peer link.serial).get? link.peer = _
      rw [SortedMap.get?_insert, if_pos Std.ReflCmp.compare_self, serial_of_link? hlink]
    · exact absurd (List.mem_singleton.1 hnew) nofun
  have haction : action ∈ front ++ action :: back := by simp
  rcases hcourteous.accepted ⟨other, hold⟩ with ⟨peer, hget⟩ | hexcused | hclose | hshut
  · rcases hwired.leaves_place hperform hget with hstays | hleft | hclose
    · exact .inl ⟨peer, hstays⟩
    · exact .inr (.inl (.inl (List.mem_append_left _ hleft)))
    · exact .inr (.inr (.inl (mem_pending_of_next hclose)))
  · exact .inr (.inl (hexcused.perform hperform))
  · by_cases hsame : Action.close true serial = action
    · subst hsame
      rcases hcourteous.excused_or_shut hjudged ⟨other, hold⟩ hperform with hexcused | hnext
      · exact .inr (.inl (hexcused.perform hperform))
      · exact .inr (.inr (.inr (mem_pending_of_next hnext)))
    · exact .inr (.inr (.inl (mem_pending_of_ne hclose hsame)))
  · by_cases hsame : Action.shut true serial = action
    · subst hsame
      exact .inr (.inl (hcourteous.excused_of_shut hwired haction hperform))
    · exact .inr (.inr (.inr (mem_pending_of_ne hshut hsame)))

/-- An action leaves nobody untold, as long as a stop has told everyone before its last step. -/
theorem perform (hwired : Wired manager (front ++ action :: back))
    (hjudged : Judged manager (front ++ action :: back) trace)
    (hcourteous : Courteous manager (front ++ action :: back) trace)
    (hfinish : ∀ session serials, action = .finish session serials →
      ∀ serial ∈ serials, Excused manager trace serial)
    (hperform : manager.perform chance action = some outcome) :
    Courteous outcome.manager (front ++ (outcome.next ++ back)) (outcome.marks ++ trace) where
  withdrawn _ hother := hcourteous.withdrawn_perform hperform hother
  shut := hcourteous.shut_perform hperform
  terminated := hcourteous.terminated_perform hjudged hfinish hperform
  accepted := accepted_perform hwired hcourteous hjudged hperform

end Courteous

end Manager

end RegionGossip
