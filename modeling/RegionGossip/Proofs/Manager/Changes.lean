import RegionGossip.Proofs.Link.Reading
import RegionGossip.Proofs.Manager.Runs

/-!
# What becomes of one link, and what follows from an action

An action that touches a link does one of a few things to it, and which one tells what the action
was. In the same way what a task has to do next tells what it has done. With these two lists, what
is said of single links or of what is pending is shown to be kept case by case, and no action has to
be opened again.
-/

namespace RegionGossip

/-- The links that an action, or the last step of a stop, marks as terminated. -/
def Action.ends : Action → List Nat
  | .terminate serial | .bury serial _ => [serial]
  | .finish _ serials => serials
  | _ => []

/-- What an action does to the link of a serial. -/
inductive Link.Change (settings : Settings) (chance : Chance) (serial : Nat) :
    Action → Link → Link → Prop
  | same {action link} : Change settings chance serial action link link
  | establish {link} : Change settings chance serial (.enter serial) link link.establish
  | cancel {notify link} : link.state ≠ .terminated →
    Change settings chance serial (.close notify serial) link link.cancel
  | shut {notify link} :
    Change settings chance serial (.shut notify serial) link (link.shut settings notify)
  | terminate {action link} : serial ∈ action.ends →
    Change settings chance serial action link link.terminate
  | read {link after} : link.readOnce chance = some after →
    Change settings chance serial (.read serial) link after
  | send {payload link} : Change settings chance serial (.send payload serial) link
    (link.send settings payload chance.coin chance.writes).2

/-- What follows from an action. -/
inductive Manager.Follows (manager : Manager) (now : Nat) (marks : List Mark) :
    Action → Action → Prop
  /-- The link that a new one takes the place of is closed. -/
  | displaced {serial link old} : manager.link? serial = some link →
    manager.accepts now link = true → manager.table.get? link.peer = some old →
    Follows manager now marks (.enter serial) (.close true old)
  | accepted {serial link} : manager.link? serial = some link →
    manager.accepts now link = true → .accepted link.peer serial ∈ marks →
    Follows manager now marks (.enter serial) (.read serial)
  | refused {serial link} : manager.link? serial = some link →
    manager.accepts now link = false → .refused link.peer serial ∈ marks →
    Follows manager now marks (.enter serial) (.close true serial)
  | rejected {serial link} : manager.link? serial = some link →
    manager.accepts now link = false → .refused link.peer serial ∈ marks →
    Follows manager now marks (.enter serial) (.terminate serial)
  | shut {notify serial} : Follows manager now marks (.close notify serial) (.shut notify serial)
  | again {serial} : Follows manager now marks (.read serial) (.read serial)
  | exited {serial exit} : Follows manager now marks (.read serial) (.leave serial exit)
  | left {serial exit} : exit ≠ .cancelled →
    Follows manager now marks (.leave serial exit) (.close false serial)
  | bury {serial exit released} :
    Follows manager now marks (.leave serial exit) (.bury serial released)
  | retain {serial link} : manager.link? serial = some link →
    Follows manager now marks (.bury serial false) (.retain link.peer)
  | failed {payload serial} : Follows manager now marks (.send payload serial) (.drop serial)
  | dropped {serial} : Follows manager now marks (.drop serial) (.close false serial)
  | drained {session peer serial} : manager.table.get? peer = some serial →
    Follows manager now marks (.drain session) (.close true serial)
  | finish {session serials} : serials.Perm manager.table.values →
    Follows manager now marks (.drain session) (.finish session serials)

namespace Link

variable {link : Link}

/-- Writing has nothing to do with reading. -/
theorem aside_write (link : Link) (body : List UInt8) (writes : Bool) :
    Aside link (link.write body writes).2 := by
  rw [write]
  split
  · split
    · split <;> exact ⟨rfl, rfl, rfl, rfl, id⟩
    · exact ⟨rfl, rfl, rfl, rfl, id⟩
  · exact ⟨rfl, rfl, rfl, rfl, id⟩

/-- Sending has nothing to do with reading. -/
theorem aside_send (link : Link) (settings : Settings) (payload : Payload) (coin writes : Bool) :
    Aside link (link.send settings payload coin writes).2 := by
  rw [send, sendBy]
  split
  · split
    · exact ⟨rfl, rfl, rfl, rfl, id⟩
    · exact ⟨rfl, rfl, rfl, rfl, id⟩
    · exact aside_write ..
  · exact ⟨rfl, rfl, rfl, rfl, id⟩

end Link

namespace Manager

variable {manager : Manager} {chance : Chance} {outcome : Outcome} {action : Action} {serial : Nat}
  {before after : Link}

/-- A stop marks the links as terminated that it closes. -/
theorem link?_finishStop_of_mem {serials : List Nat} (hmem : serial ∈ serials)
    (hlink : manager.link? serial = some before) :
    (manager.finishStop serials).link? serial = some before.terminate := by
  induction serials generalizing manager before with
  | nil => exact absurd hmem List.not_mem_nil
  | cons first rest ih =>
    by_cases hfirst : serial = first
    · subst hfirst
      have hfinish : (manager.finishLink serial).link? serial = some before.terminate := by
        rw [finishLink, hlink]
        have hterminated : (manager.modifyLink serial Link.terminate).link? serial = _ :=
          link?_modifyLink manager serial serial fun _ => rfl
        rw [if_pos rfl, hlink] at hterminated
        exact hterminated
      by_cases hrest : serial ∈ rest
      · -- marking a link twice is no more than marking it once
        have hagain := ih hrest hfinish
        exact hagain
      · exact (link?_finishStop hrest).trans hfinish
    · have hother : (manager.finishLink first).link? serial = manager.link? serial := by
        rw [finishLink]
        split
        · rfl
        · exact link?_modifyLink_of_ne (fun _ => rfl) hfirst
      exact ih (List.mem_of_ne_of_mem hfirst hmem) (hother.trans hlink)

/-- What is found under the serial of a link after a change is what the change makes of it. -/
theorem eq_change {change : Link → Link} (hlink : manager.link? serial = some before)
    (hafter : (manager.modifyLink serial change).link? serial = some after)
    (hserial : ∀ link, (change link).serial = link.serial) : after = change before := by
  rw [link?_modifyLink manager serial serial hserial, if_pos rfl, hlink] at hafter
  exact (Option.some.inj hafter).symm

/-- Every action does one of these things to a link. -/
theorem change_perform (hperform : manager.perform chance action = some outcome)
    (hlink : manager.link? serial = some before)
    (hafter : outcome.manager.link? serial = some after) :
    Link.Change manager.settings chance serial action before after := by
  by_cases htarget : serial ∈ action.targets
  · have hsame (hmanager : outcome.manager.link? serial = manager.link? serial) :
        Link.Change manager.settings chance serial action before after := by
      obtain rfl : after = before :=
        Option.some.inj (hafter.symm.trans (hmanager.trans hlink))
      exact .same
    cases action with
    | enter entered =>
      obtain rfl : serial = entered := List.mem_singleton.1 htarget
      obtain ⟨link, hfound, ⟨-, rfl⟩ | ⟨-, rfl⟩⟩ := perform_enter hperform
      · obtain rfl := serial_of_link? hfound
        have hestablished : (manager.modifyLink link.serial Link.establish).link? link.serial =
          some after := hafter
        obtain rfl := eq_change hlink hestablished fun _ => rfl
        exact .establish
      · exact hsame rfl
    | close notify closed =>
      obtain rfl : serial = closed := List.mem_singleton.1 htarget
      obtain ⟨link, hfound, ⟨-, rfl⟩ | ⟨hstate, rfl⟩⟩ := perform_close hperform
      · exact hsame rfl
      · obtain rfl : link = before := Option.some.inj (hfound.symm.trans hlink)
        obtain rfl := eq_change hlink hafter fun _ => rfl
        exact .cancel hstate
    | shut notify closed =>
      obtain rfl : serial = closed := List.mem_singleton.1 htarget
      obtain rfl := Option.some.inj hperform
      obtain rfl := eq_change hlink hafter fun _ => rfl
      exact .shut
    | terminate refused =>
      obtain rfl : serial = refused := List.mem_singleton.1 htarget
      obtain rfl := Option.some.inj hperform
      obtain rfl := eq_change hlink hafter fun _ => rfl
      exact .terminate htarget
    | read reading =>
      obtain rfl : serial = reading := List.mem_singleton.1 htarget
      obtain ⟨link, next, hfound, hread, hmanager, -⟩ := perform_read hperform
      obtain rfl : link = before := Option.some.inj (hfound.symm.trans hlink)
      rw [hmanager] at hafter
      obtain rfl := eq_change hlink hafter
        fun link => Link.serial_eq_of_identity (link.identity_readOnce_getD chance)
      rw [hread]
      exact .read hread
    | leave gone exit =>
      obtain ⟨link, -, rfl⟩ := perform_leave hperform
      exact hsame (link?_release ..)
    | bury gone released =>
      obtain rfl : serial = gone := List.mem_singleton.1 htarget
      have hchanged : outcome.manager.link? serial =
          (manager.modifyLink serial Link.terminate).link? serial := by
        obtain ⟨link, -, ⟨-, rfl⟩ | ⟨-, rfl⟩⟩ := perform_bury hperform <;> rfl
      obtain rfl := eq_change hlink (hchanged.symm.trans hafter) fun _ => rfl
      exact .terminate htarget
    | retain peer => exact absurd htarget List.not_mem_nil
    | send payload sent =>
      obtain rfl : serial = sent := List.mem_singleton.1 htarget
      obtain ⟨link, -, hmanager, -⟩ := perform_send hperform
      rw [hmanager] at hafter
      obtain rfl := eq_change hlink hafter
        fun link => Link.serial_eq_of_identity (link.identity_send ..)
      exact .send
    | drop gone =>
      obtain ⟨link, -, rfl⟩ := perform_drop hperform
      exact hsame (link?_release ..)
    | drain session => exact absurd htarget List.not_mem_nil
    | finish session serials =>
      obtain rfl := Option.some.inj hperform
      obtain rfl : before.terminate = after :=
        Option.some.inj ((link?_finishStop_of_mem htarget hlink).symm.trans hafter)
      exact .terminate htarget
  · rw [link?_perform hperform htarget, hlink] at hafter
    obtain rfl := Option.some.inj hafter
    exact .same

/-- Everything that follows from an action is in the list. -/
theorem follows_of_next {next : Action} (hperform : manager.perform chance action = some outcome)
    (hnext : next ∈ outcome.next) : Follows manager chance.now outcome.marks action next := by
  cases action with
  | enter entered =>
    obtain ⟨link, hlink, ⟨haccepts, rfl⟩ | ⟨hrefuses, rfl⟩⟩ := perform_enter hperform
    · rcases List.mem_append.1 hnext with hclose | hread
      · obtain ⟨old, hold, rfl⟩ : ∃ old, manager.table.get? link.peer = some old ∧
          Action.close true old = next := by simpa using hclose
        exact .displaced hlink haccepts hold
      · obtain rfl := List.mem_singleton.1 hread
        exact .accepted hlink haccepts List.mem_cons_self
    · rcases List.mem_cons.1 hnext with rfl | hterminate
      · exact .refused hlink hrefuses List.mem_cons_self
      · obtain rfl := List.mem_singleton.1 hterminate
        exact .rejected hlink hrefuses List.mem_cons_self
  | close notify closed =>
    obtain ⟨link, -, ⟨-, rfl⟩ | ⟨-, rfl⟩⟩ := perform_close hperform
    · exact absurd hnext List.not_mem_nil
    · obtain rfl := List.mem_singleton.1 hnext
      exact .shut
  | shut | terminate | finish =>
    obtain rfl := Option.some.inj hperform
    exact absurd hnext List.not_mem_nil
  | read read =>
    obtain ⟨link, after, -, -, -, ⟨exit, -, hnexts, -⟩ | ⟨-, hnexts, -⟩⟩ := perform_read hperform
    · obtain rfl := List.mem_singleton.1 (hnexts ▸ hnext)
      exact .exited
    · obtain rfl := List.mem_singleton.1 (hnexts ▸ hnext)
      exact .again
  | leave gone exit =>
    obtain ⟨link, -, rfl⟩ := perform_leave hperform
    rcases List.mem_append.1 hnext with hclose | hbury
    · split at hclose
      · exact absurd hclose List.not_mem_nil
      · rename_i hexit
        obtain rfl := List.mem_singleton.1 hclose
        exact .left hexit
    · obtain rfl := List.mem_singleton.1 hbury
      exact .bury
  | bury gone released =>
    obtain ⟨link, hlink, ⟨-, rfl⟩ | ⟨rfl, rfl⟩⟩ := perform_bury hperform
    · exact absurd hnext List.not_mem_nil
    · obtain rfl := List.mem_singleton.1 hnext
      exact .retain hlink
  | retain peer =>
    obtain ⟨-, rfl⟩ | ⟨-, rfl⟩ := perform_retain hperform <;> exact absurd hnext List.not_mem_nil
  | send payload sent =>
    obtain ⟨link, -, -, ⟨error, -, hnexts, -⟩ | ⟨-, hnexts, -⟩⟩ := perform_send hperform
    · obtain rfl := List.mem_singleton.1 (hnexts ▸ hnext)
      exact .failed
    · exact absurd (hnexts ▸ hnext) List.not_mem_nil
  | drop gone =>
    obtain ⟨link, -, rfl⟩ := perform_drop hperform
    obtain rfl := List.mem_singleton.1 hnext
    exact .dropped
  | drain session =>
    obtain rfl := Option.some.inj hperform
    rcases List.mem_append.1 hnext with hclose | hfinish
    · obtain ⟨serial, hserial, rfl⟩ := List.mem_map.1 hclose
      obtain ⟨peer, hget⟩ := manager.table.mem_values_iff.1 (mem_visits_iff.1 hserial)
      exact .drained hget
    · obtain rfl := List.mem_singleton.1 hfinish
      exact .finish (manager.perm_visits chance.order)

end Manager

end RegionGossip
