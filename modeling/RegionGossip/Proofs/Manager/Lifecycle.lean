import RegionGossip.Proofs.Manager.Wiring

/-!
# Every link comes to its end

A link that is terminated or cancelled stays so. As long as it is not terminated some task still has
to see to it, and as long as it is neither terminated nor cancelled it asks for its place in the
table, has it, or is about to be closed. So no link is forgotten, whether it was displaced, turned
down or broken.
-/

namespace RegionGossip

/-- The link that an action, or what follows from it, brings to its end. -/
def Action.tends : Action → Option Nat
  | .enter serial | .terminate serial | .read serial | .leave serial _ | .bury serial _ =>
    some serial
  | _ => none

/-- An action means the link that it tends. -/
theorem Action.mem_targets_of_tends {action : Action} {serial : Nat}
    (htends : action.tends = some serial) : serial ∈ action.targets := by
  cases action with
  | enter | terminate | read | leave | bury =>
    obtain rfl := Option.some.inj htends
    simp [targets]
  | close | shut | retain | send | drop | drain | finish => simp [tends] at htends

/-- What is over about a link stays over. -/
structure Link.Later (before after : Link) : Prop where
  terminated : before.state = .terminated → after.state = .terminated
  cancelled : before.cancelled = true → after.cancelled = true

namespace Link.Later

/-- Neither the state nor the cancellation changes. -/
theorem of_eq {before after : Link} (hstate : after.state = before.state)
    (hcancelled : after.cancelled = before.cancelled) : Later before after :=
  ⟨fun h => hstate.trans h, fun h => hcancelled.trans h⟩

/-- Nothing happens. -/
theorem refl (link : Link) : Later link link := ⟨id, id⟩

/-- One change after the other. -/
theorem trans {first second third : Link} (hfirst : Later first second)
    (hsecond : Later second third) : Later first third :=
  ⟨fun h => hsecond.terminated (hfirst.terminated h),
    fun h => hsecond.cancelled (hfirst.cancelled h)⟩

/-- A message ends nothing that is over. -/
theorem handle (link : Link) (now : Nat) (message : Except MeshError Wire.Message) :
    Later link (link.handle now message) := by
  rcases message with error | payload | _ <;> exact of_eq rfl rfl

/-- Taking a frame ends nothing that is over. -/
theorem takeFrame {link after : Link} {now : Nat} (htake : link.takeFrame now = some after) :
    Later link after := by
  rw [Link.takeFrame] at htake
  split at htake
  · simp at htake
  · rename_i content rest _
    obtain rfl := Option.some.inj htake
    have htaken : Later link { link with inbox := rest } := of_eq rfl rfl
    exact htaken.trans (handle ..)
  · obtain rfl := Option.some.inj htake
    exact of_eq rfl rfl

/-- A turn of the read loop ends nothing that is over. -/
theorem readOnce {link after : Link} {chance : Chance} (hread : link.readOnce chance = some after) :
    Later link after := by
  rw [Link.readOnce] at hread
  split at hread
  · exact takeFrame hread
  · split at hread
    · obtain rfl := Option.some.inj hread
      exact of_eq rfl rfl
    · simp at hread
  · obtain rfl := Option.some.inj hread
    exact of_eq rfl rfl
  · simp at hread

/-- A turn of the read loop, whether there is something to read or not. -/
theorem readOnce_getD (link : Link) (chance : Chance) :
    Later link ((link.readOnce chance).getD link) := by
  cases hread : link.readOnce chance with
  | none => exact refl link
  | some after => exact readOnce hread

/-- Writing on a link that is not terminated. -/
theorem write {link : Link} (hstate : link.state ≠ .terminated) (body : List UInt8)
    (writes : Bool) : Later link (link.write body writes).2 := by
  refine ⟨fun hterminated => absurd hterminated hstate, fun hcancelled => ?_⟩
  rw [Link.write]
  split
  · split
    · split <;> exact hcancelled
    · exact hcancelled
  · exact hcancelled

/-- Sending ends nothing that is over. -/
theorem send (link : Link) (settings : Settings) (payload : Payload) (coin writes : Bool) :
    Later link (link.send settings payload coin writes).2 := by
  rw [Link.send, Link.sendBy]
  split
  · rename_i hconnected
    split
    · exact refl link
    · exact refl link
    · exact write (by simp [hconnected]) ..
  · exact refl link

end Link.Later

/-- No message cancels a read loop. -/
theorem Link.readLoop_handle {link : Link} (hrunning : link.readLoop = .running) (now : Nat)
    (message : Except MeshError Wire.Message) :
    (link.handle now message).readLoop ≠ .ended .cancelled := by
  rcases message with error | payload | _ <;> simp [handle, endReading, hrunning]

/-- Only a cancelled link is left because of a cancellation. -/
theorem Link.cancelled_of_readOnce {link after : Link} {chance : Chance}
    (hread : link.readOnce chance = some after) (hloop : after.readLoop = .ended .cancelled) :
    after.cancelled = true := by
  rw [readOnce] at hread
  split at hread
  · rename_i hrunning _
    rw [takeFrame] at hread
    split at hread
    · simp at hread
    · rename_i content rest _
      obtain rfl := Option.some.inj hread
      have hstill : { link with inbox := rest }.readLoop = .running := hrunning
      exact absurd hloop (readLoop_handle hstill _ _)
    · obtain rfl := Option.some.inj hread
      simp [endReading] at hloop
  · split at hread
    · rename_i hcancelled
      obtain rfl := Option.some.inj hread
      exact hcancelled
    · simp at hread
  · obtain rfl := Option.some.inj hread
    simp [endReading] at hloop
  · simp at hread

namespace Manager

variable {manager after : Manager} {chance : Chance} {outcome : Outcome}

/-- What is over about the links of a manager stays over. -/
def Advances (before after : Manager) : Prop :=
  ∀ serial link, before.link? serial = some link →
    ∃ next, after.link? serial = some next ∧ Link.Later link next

namespace Advances

/-- Managers with the same list of links. -/
theorem of_links_eq (hlinks : after.links = manager.links) : Advances manager after := by
  intro serial link hlink
  refine ⟨link, ?_, .refl link⟩
  rwa [link?, hlinks]

/-- Nothing happens. -/
theorem refl (manager : Manager) : Advances manager manager := of_links_eq rfl

/-- One change after the other. -/
theorem trans {first second third : Manager} (hfirst : Advances first second)
    (hsecond : Advances second third) : Advances first third := by
  intro serial link hlink
  obtain ⟨next, hnext, hlater⟩ := hfirst serial link hlink
  obtain ⟨last, hlast, hlatest⟩ := hsecond serial next hnext
  exact ⟨last, hlast, hlater.trans hlatest⟩

/-- The link of one serial is changed without coming back to life. -/
theorem modifyLink (manager : Manager) {serial : Nat} {change : Link → Link}
    (hserial : ∀ link, (change link).serial = link.serial)
    (hlater : ∀ link, manager.link? serial = some link → Link.Later link (change link)) :
    Advances manager (manager.modifyLink serial change) := by
  intro other link hlink
  rw [link?_modifyLink manager serial other hserial]
  split
  · rename_i hsame
    subst hsame
    exact ⟨change link, by rw [hlink, Option.map_some], hlater link hlink⟩
  · exact ⟨link, hlink, .refl link⟩

/-- The table lets go of a link. -/
theorem release (manager : Manager) (link : Link) : Advances manager (manager.release link) := by
  intro serial found hfound
  exact ⟨found, by rwa [link?_release], .refl found⟩

/-- A link is marked as terminated. -/
theorem terminate (manager : Manager) (serial : Nat) :
    Advances manager (manager.modifyLink serial Link.terminate) :=
  modifyLink manager (fun _ => rfl) fun _ _ => ⟨fun _ => rfl, id⟩

/-- A stop marks its links as terminated. -/
theorem finishStop (manager : Manager) (serials : List Nat) :
    Advances manager (manager.finishStop serials) := by
  induction serials generalizing manager with
  | nil => exact refl manager
  | cons serial rest ih =>
    have hfinish : Advances manager (manager.finishLink serial) := by
      rw [finishLink]
      split
      · exact refl manager
      · exact (terminate manager serial).trans (of_links_eq rfl)
    exact hfinish.trans (ih _)

/-- What is over about a link was over before in no case, or it came from a link that was there. -/
theorem exists_before (hadvances : Advances manager after) (hsame : SameLinks manager after)
    {serial : Nat} {link : Link} (hlink : after.link? serial = some link) :
    ∃ old, manager.link? serial = some old ∧ Link.Later old link ∧
      link.identity = old.identity := by
  obtain ⟨old, hold, hidentity⟩ := hsame.exists_before hlink
  obtain ⟨next, hnext, hlater⟩ := hadvances serial old hold
  obtain rfl : link = next := Option.some.inj (hlink.symm.trans hnext)
  exact ⟨old, hold, hlater, hidentity.symm⟩

end Advances

/-- No action brings a link back to life. -/
theorem advances_perform {front back : List Action} {action : Action}
    (hwired : Wired manager (front ++ action :: back))
    (hperform : manager.perform chance action = some outcome) :
    Advances manager outcome.manager := by
  cases action with
  | enter serial =>
    obtain ⟨link, hlink, ⟨-, rfl⟩ | ⟨-, rfl⟩⟩ := perform_enter hperform
    · obtain rfl := serial_of_link? hlink
      have hfresh : Fresh manager (front ++ .enter link.serial :: back) link.serial :=
        hwired.fresh (by simp)
      have hestablish : Advances manager (manager.modifyLink link.serial Link.establish) :=
        .modifyLink manager (fun _ => rfl) fun found hfound =>
          ⟨fun h => absurd h (by simp [hfresh.handshaking found hfound]), id⟩
      exact hestablish.trans (.of_links_eq rfl)
    · exact .refl manager
  | close notify serial =>
    obtain ⟨link, hlink, ⟨-, rfl⟩ | ⟨hstate, rfl⟩⟩ := perform_close hperform
    · exact .refl manager
    · refine .modifyLink manager (fun _ => rfl) fun found hfound => ⟨fun h => ?_, fun _ => rfl⟩
      obtain rfl : link = found := Option.some.inj (hlink.symm.trans hfound)
      exact absurd h hstate
  | shut notify serial =>
    obtain rfl := Option.some.inj hperform
    exact .modifyLink manager (fun _ => rfl) fun _ _ => ⟨id, id⟩
  | terminate serial =>
    obtain rfl := Option.some.inj hperform
    exact .terminate manager serial
  | read serial =>
    obtain ⟨link, after, -, -, hmanager, -⟩ := perform_read hperform
    rw [hmanager]
    exact .modifyLink manager
      (fun link => Link.serial_eq_of_identity (link.identity_readOnce_getD chance))
      fun link _ => .readOnce_getD link chance
  | leave serial exit =>
    obtain ⟨link, -, rfl⟩ := perform_leave hperform
    exact .release manager link
  | bury serial released =>
    obtain ⟨link, -, ⟨-, rfl⟩ | ⟨-, rfl⟩⟩ := perform_bury hperform
    · exact (Advances.terminate manager serial).trans (.of_links_eq rfl)
    · exact .terminate manager serial
  | retain peer =>
    obtain ⟨-, rfl⟩ | ⟨-, rfl⟩ := perform_retain hperform
    · exact .refl manager
    · exact .of_links_eq rfl
  | send payload serial =>
    obtain ⟨link, -, hmanager, -⟩ := perform_send hperform
    rw [hmanager]
    exact .modifyLink manager
      (fun link => Link.serial_eq_of_identity (link.identity_send ..))
      fun link _ => .send link ..
  | drop serial =>
    obtain ⟨link, -, rfl⟩ := perform_drop hperform
    exact .release manager link
  | drain session =>
    obtain rfl := Option.some.inj hperform
    exact .of_links_eq rfl
  | finish session serials =>
    obtain rfl := Option.some.inj hperform
    exact .finishStop manager serials

/-- A link is cancelled in time if it is terminated or cancelled, asks for its place in the table,
has it, or is about to be closed. -/
def Accounted (manager : Manager) (pending : List Action) (serial : Nat) (link : Link) : Prop :=
  link.state = .terminated ∨ link.cancelled = true ∨ .enter serial ∈ pending ∨
    manager.table.get? link.peer = some serial ∨ ∃ notify, .close notify serial ∈ pending

/-- Every link comes to its end. -/
structure Tended (manager : Manager) (pending : List Action) : Prop where
  tended : ∀ {serial link}, manager.link? serial = some link →
    link.state = .terminated ∨ ∃ action ∈ pending, action.tends = some serial
  accounted : ∀ {serial link}, manager.link? serial = some link →
    Accounted manager pending serial link
  excused : ∀ {serial link}, .leave serial .cancelled ∈ pending →
    manager.link? serial = some link → link.cancelled = true

/-- A link that is marked as terminated is terminated. -/
theorem state_terminate {serial : Nat} {link : Link}
    (hlink : (manager.modifyLink serial Link.terminate).link? serial = some link) :
    link.state = .terminated := by
  obtain ⟨old, -, rfl⟩ := exists_of_link?_modifyLink hlink fun _ => rfl
  rfl

/-- A link that an action tends is tended by what follows, unless it is terminated now. -/
theorem tends_perform {action : Action} {serial : Nat} {link : Link}
    (hperform : manager.perform chance action = some outcome) (htends : action.tends = some serial)
    (hlink : outcome.manager.link? serial = some link) :
    link.state = .terminated ∨ ∃ next ∈ outcome.next, next.tends = some serial := by
  cases action with
  | enter entered =>
    obtain rfl : entered = serial := Option.some.inj htends
    obtain ⟨found, -, ⟨-, rfl⟩ | ⟨-, rfl⟩⟩ := perform_enter hperform
    · exact .inr ⟨.read entered, by simp, rfl⟩
    · exact .inr ⟨.terminate entered, by simp, rfl⟩
  | terminate refused =>
    obtain rfl : refused = serial := Option.some.inj htends
    obtain rfl := Option.some.inj hperform
    exact .inl (state_terminate hlink)
  | read running =>
    obtain rfl : running = serial := Option.some.inj htends
    obtain ⟨found, after, -, -, -, ⟨exit, -, hnexts, -⟩ | ⟨-, hnexts, -⟩⟩ := perform_read hperform
    · exact .inr ⟨.leave running exit, by simp [hnexts], rfl⟩
    · exact .inr ⟨.read running, by simp [hnexts], rfl⟩
  | leave gone exit =>
    obtain rfl : gone = serial := Option.some.inj htends
    obtain ⟨found, -, rfl⟩ := perform_leave hperform
    exact .inr ⟨.bury gone (manager.holds found), by simp, rfl⟩
  | bury gone released =>
    obtain rfl : gone = serial := Option.some.inj htends
    obtain ⟨found, -, ⟨-, rfl⟩ | ⟨-, rfl⟩⟩ := perform_bury hperform
    · exact .inl (state_terminate hlink)
    · exact .inl (state_terminate hlink)
  | close | shut | retain | send | drop | drain | finish => simp [Action.tends] at htends

/-- A link that is done with asking for its place in the table has it or is about to be closed, and
a link that was about to be closed is cancelled, unless it was terminated. -/
theorem accounted_of_done {action : Action} {serial : Nat} {link : Link}
    (hperform : manager.perform chance action = some outcome)
    (haction : action = .enter serial ∨ ∃ notify, action = .close notify serial)
    (hlink : outcome.manager.link? serial = some link) :
    link.state = .terminated ∨ link.cancelled = true ∨
      outcome.manager.table.get? link.peer = some serial ∨
        ∃ notify, .close notify serial ∈ outcome.next := by
  rcases haction with rfl | ⟨notify, rfl⟩
  · obtain ⟨found, hfound, ⟨-, rfl⟩ | ⟨-, rfl⟩⟩ := perform_enter hperform
    · obtain rfl := serial_of_link? hfound
      have hpeer : link.peer = found.peer := by
        have hestablished : (manager.modifyLink found.serial Link.establish).link? found.serial =
          some link := hlink
        obtain ⟨old, hold, rfl⟩ := exists_of_link?_modifyLink hestablished fun _ => rfl
        obtain rfl : found = old := Option.some.inj (hfound.symm.trans hold)
        rfl
      refine .inr (.inr (.inl ?_))
      show (manager.table.insert found.peer found.serial).get? link.peer = _
      rw [SortedMap.get?_insert, hpeer, if_pos Std.ReflCmp.compare_self]
    · exact .inr (.inr (.inr ⟨true, by simp⟩))
  · obtain ⟨found, hfound, ⟨hstate, rfl⟩ | ⟨-, rfl⟩⟩ := perform_close hperform
    · obtain rfl := Option.some.inj (hlink.symm.trans hfound)
      exact .inl hstate
    · have hcancelled : (manager.modifyLink serial Link.cancel).link? serial = some link := hlink
      obtain ⟨old, -, rfl⟩ := exists_of_link?_modifyLink hcancelled fun _ => rfl
      exact .inr (.inl rfl)

/-- A link loses its place in the table only to be closed, unless it was cancelled before. -/
theorem accounted_of_held {front back : List Action} {action : Action} {serial : Nat} {link : Link}
    (hwired : Wired manager (front ++ action :: back))
    (hperform : manager.perform chance action = some outcome)
    (hget : manager.table.get? link.peer = some serial) :
    outcome.manager.table.get? link.peer = some serial ∨
      (∃ notify, .close notify serial ∈ outcome.next) ∨ action = .leave serial .cancelled := by
  rcases table_perform hperform with ⟨htable, -⟩ | ⟨entered, other, rfl, hother, haccepts, htable, -⟩ |
    ⟨gone, other, hleaves, hother, hmanager, -⟩ | ⟨session, rfl, -, -⟩
  · exact .inl (htable ▸ hget)
  · rw [htable, SortedMap.get?_insert]
    by_cases hsame : compare link.peer other.peer = .eq
    · -- the link is displaced
      rw [manager.table.get?_congr hsame] at hget
      rw [perform_enter_of_link hother, if_pos haccepts] at hperform
      obtain rfl := Option.some.inj hperform
      exact .inr (.inl ⟨true, by simp [hget]⟩)
    · rw [if_neg hsame]
      exact .inl hget
  · by_cases hsame : serial = gone
    · subst hsame
      rcases hleaves with ⟨exit, rfl⟩ | rfl
      · obtain ⟨found, -, rfl⟩ := perform_leave hperform
        by_cases hexit : exit = .cancelled
        · exact .inr (.inr (by rw [hexit]))
        · exact .inr (.inl ⟨false, by simp [hexit]⟩)
      · obtain ⟨found, -, rfl⟩ := perform_drop hperform
        exact .inr (.inl ⟨false, by simp⟩)
    · rw [hmanager, hwired.get?_release hother, hget, Option.filter_some_pos (by simpa using hsame)]
      exact .inl rfl
  · obtain rfl := Option.some.inj hperform
    have hvisited : serial ∈ manager.visits chance.order :=
      mem_visits_iff.2 (manager.table.mem_values_iff.2 ⟨_, hget⟩)
    exact .inr (.inl ⟨true, by simpa using hvisited⟩)

/-- A read loop that is left because of a cancellation is that of a cancelled link. -/
theorem cancelled_of_leave {action : Action} {serial : Nat} {link : Link}
    (hperform : manager.perform chance action = some outcome)
    (hnext : .leave serial .cancelled ∈ outcome.next)
    (hlink : outcome.manager.link? serial = some link) : link.cancelled = true := by
  cases action with
  | read read =>
    obtain ⟨found, after, hfound, hread, hmanager, ⟨exit, hloop, hnexts, -⟩ | ⟨-, hnexts, -⟩⟩ :=
      perform_read hperform
    · obtain ⟨rfl, rfl⟩ : serial = read ∧ .cancelled = exit := by simpa [hnexts] using hnext
      rw [hmanager] at hlink
      obtain ⟨old, hold, rfl⟩ := exists_of_link?_modifyLink hlink
        fun link => Link.serial_eq_of_identity (link.identity_readOnce_getD chance)
      obtain rfl : found = old := Option.some.inj (hfound.symm.trans hold)
      rw [hread]
      exact Link.cancelled_of_readOnce hread hloop
    · simp [hnexts] at hnext
  | enter entered =>
    obtain ⟨found, -, ⟨-, rfl⟩ | ⟨-, rfl⟩⟩ := perform_enter hperform <;> simp at hnext
  | close notify closed =>
    obtain ⟨found, -, ⟨-, rfl⟩ | ⟨-, rfl⟩⟩ := perform_close hperform <;> simp at hnext
  | shut | terminate | finish =>
    obtain rfl := Option.some.inj hperform
    simp at hnext
  | leave gone exit =>
    obtain ⟨found, -, rfl⟩ := perform_leave hperform
    by_cases hexit : exit = .cancelled <;> simp [hexit] at hnext
  | bury gone released =>
    obtain ⟨found, -, ⟨-, rfl⟩ | ⟨-, rfl⟩⟩ := perform_bury hperform <;> simp at hnext
  | retain peer =>
    obtain ⟨-, rfl⟩ | ⟨-, rfl⟩ := perform_retain hperform <;> simp at hnext
  | send payload sent =>
    obtain ⟨found, -, -, ⟨error, -, hnexts, -⟩ | ⟨-, hnexts, -⟩⟩ := perform_send hperform <;>
      simp [hnexts] at hnext
  | drop gone =>
    obtain ⟨found, -, rfl⟩ := perform_drop hperform
    simp at hnext
  | drain session =>
    obtain rfl := Option.some.inj hperform
    simp at hnext

namespace Tended

variable {pending : List Action}

/-- An action forgets no link. -/
theorem perform {front back : List Action} {action : Action}
    (hwired : Wired manager (front ++ action :: back))
    (htended : Tended manager (front ++ action :: back))
    (hperform : manager.perform chance action = some outcome) :
    Tended outcome.manager (front ++ (outcome.next ++ back)) := by
  have hadvances := advances_perform hwired hperform
  have hsame := (continues_perform hperform).links
  refine ⟨fun {serial link} hlink => ?_, fun {serial link} hlink => ?_,
    fun {serial link} hleave hlink => ?_⟩
  · obtain ⟨old, hold, hlater, -⟩ := hadvances.exists_before hsame hlink
    rcases htended.tended hold with hterminated | ⟨other, hother, htends⟩
    · exact .inl (hlater.terminated hterminated)
    · by_cases hdone : other = action
      · subst hdone
        rcases tends_perform hperform htends hlink with hterminated | ⟨next, hnext, htends⟩
        · exact .inl hterminated
        · exact .inr ⟨next, mem_pending_of_next hnext, htends⟩
      · exact .inr ⟨other, mem_pending_of_ne hother hdone, htends⟩
  · obtain ⟨old, hold, hlater, hidentity⟩ := hadvances.exists_before hsame hlink
    have hpeer : link.peer = old.peer := Link.peer_eq_of_identity hidentity
    have hdone (haction : action = .enter serial ∨ ∃ notify, action = .close notify serial) :
        Accounted outcome.manager (front ++ (outcome.next ++ back)) serial link := by
      rcases accounted_of_done hperform haction hlink with h | h | h | ⟨notify, h⟩
      · exact .inl h
      · exact .inr (.inl h)
      · exact .inr (.inr (.inr (.inl h)))
      · exact .inr (.inr (.inr (.inr ⟨notify, mem_pending_of_next h⟩)))
    rcases htended.accounted hold with h | h | henter | hget | ⟨notify, hclose⟩
    · exact .inl (hlater.terminated h)
    · exact .inr (.inl (hlater.cancelled h))
    · by_cases haction : Action.enter serial = action
      · exact hdone (.inl haction.symm)
      · exact .inr (.inr (.inl (mem_pending_of_ne henter haction)))
    · rcases accounted_of_held hwired hperform hget with hget | ⟨notify, hclose⟩ | haction
      · exact .inr (.inr (.inr (.inl (hpeer ▸ hget))))
      · exact .inr (.inr (.inr (.inr ⟨notify, mem_pending_of_next hclose⟩)))
      · exact .inr (.inl (hlater.cancelled (htended.excused (by simp [haction]) hold)))
    · by_cases haction : Action.close notify serial = action
      · exact hdone (.inr ⟨notify, haction.symm⟩)
      · exact .inr (.inr (.inr (.inr ⟨notify, mem_pending_of_ne hclose haction⟩)))
  · obtain ⟨old, hold, hlater, -⟩ := hadvances.exists_before hsame hlink
    by_cases hnext : .leave serial .cancelled ∈ outcome.next
    · exact cancelled_of_leave hperform hnext hlink
    · have hkept := (mem_kept_or_next hleave).resolve_right hnext
      exact hlater.cancelled (htended.excused (mem_pending_of_kept hkept) hold)

/-- Events that leave the table alone and bring no link back to life forget no link. -/
theorem extend {more : List Action} (htended : Tended manager pending)
    (hsame : SameLinks manager after) (hadvances : Advances manager after)
    (htable : after.table = manager.table) (hmore : ∀ serial, .leave serial .cancelled ∉ more) :
    Tended after (pending ++ more) := by
  refine ⟨fun {serial link} hlink => ?_, fun {serial link} hlink => ?_,
    fun {serial link} hleave hlink => ?_⟩
  · obtain ⟨old, hold, hlater, -⟩ := hadvances.exists_before hsame hlink
    rcases htended.tended hold with hterminated | ⟨action, haction, htends⟩
    · exact .inl (hlater.terminated hterminated)
    · exact .inr ⟨action, List.mem_append_left _ haction, htends⟩
  · obtain ⟨old, hold, hlater, hidentity⟩ := hadvances.exists_before hsame hlink
    rcases htended.accounted hold with h | h | henter | hget | ⟨notify, hclose⟩
    · exact .inl (hlater.terminated h)
    · exact .inr (.inl (hlater.cancelled h))
    · exact .inr (.inr (.inl (List.mem_append_left _ henter)))
    · rw [← htable, ← Link.peer_eq_of_identity hidentity] at hget
      exact .inr (.inr (.inr (.inl hget)))
    · exact .inr (.inr (.inr (.inr ⟨notify, List.mem_append_left _ hclose⟩)))
  · obtain ⟨old, hold, hlater, -⟩ := hadvances.exists_before hsame hlink
    have hbefore := (List.mem_append.1 hleave).resolve_right (hmore serial)
    exact hlater.cancelled (htended.excused hbefore hold)

/-- Events that add nothing to the pending actions. -/
theorem keep (htended : Tended manager pending) (hsame : SameLinks manager after)
    (hadvances : Advances manager after) (htable : after.table = manager.table) :
    Tended after pending := by
  have hextended : Tended after (pending ++ []) :=
    htended.extend hsame hadvances htable fun serial => List.not_mem_nil
  rwa [List.append_nil] at hextended

/-- The task of a new link tends it. -/
theorem addLink (hwired : Wired manager pending) (htended : Tended manager pending) {link : Link}
    (hserial : link.serial = manager.nextSerial) :
    Tended (manager.addLink link) (pending ++ [.enter manager.nextSerial]) := by
  have hnew : manager.link? link.serial = none := hserial ▸ link?_nextSerial hwired.numbered
  have henter : Action.enter link.serial ∈ pending ++ [.enter manager.nextSerial] := by
    simp [hserial]
  refine ⟨fun {serial found} hfound => ?_, fun {serial found} hfound => ?_,
    fun {serial found} hleave hfound => ?_⟩
  · rw [link?_addLink hnew] at hfound
    split at hfound
    · rename_i hsame
      exact .inr ⟨_, henter, by rw [hsame]; rfl⟩
    · rcases htended.tended hfound with hterminated | ⟨action, haction, htends⟩
      · exact .inl hterminated
      · exact .inr ⟨action, List.mem_append_left _ haction, htends⟩
  · rw [link?_addLink hnew] at hfound
    split at hfound
    · rename_i hsame
      exact .inr (.inr (.inl (hsame ▸ henter)))
    · rcases htended.accounted hfound with h | h | hasks | hget | ⟨notify, hclose⟩
      · exact .inl h
      · exact .inr (.inl h)
      · exact .inr (.inr (.inl (List.mem_append_left _ hasks)))
      · exact .inr (.inr (.inr (.inl hget)))
      · exact .inr (.inr (.inr (.inr ⟨notify, List.mem_append_left _ hclose⟩)))
  · have hbefore : Action.leave serial .cancelled ∈ pending := by
      simpa using hleave
    have hknown := hwired.known _ hbefore serial (by simp [Action.targets])
    rw [link?_addLink hnew, if_neg] at hfound
    · exact htended.excused hbefore hfound
    · rintro rfl
      simp [hnew] at hknown

end Tended

end Manager

end RegionGossip
