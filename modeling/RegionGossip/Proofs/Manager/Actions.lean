import RegionGossip.Proofs.Manager.Links
import RegionGossip.Proofs.SortedMap.Lookup

/-!
# What an action can do

Each action is described once, by what it asks of the manager and by all that it may leave behind.
From these descriptions follow the facts that hold of every action alike: links keep their
identities, only the links that an action means are touched, what a task has to do next concerns
those links or links in the table, and the table changes in four ways only.
-/

namespace RegionGossip

/-- The serials of the links that an action means. -/
def Action.targets : Action → List Nat
  | .enter serial | .close _ serial | .shut _ serial | .terminate serial | .read serial
  | .leave serial _ | .bury serial _ | .send _ serial | .drop serial => [serial]
  | .retain _ | .drain _ => []
  | .finish _ serials => serials

/-- Whether an action is only ever the first one of a task. -/
def Action.begins : Action → Bool
  | .enter _ | .send _ _ | .drain _ => true
  | _ => false

/-- Whether something has happened that changes neither the table nor the session. -/
def Mark.isPassing : Mark → Bool
  | .refused _ _ | .exited _ _ | .failed _ => true
  | _ => false

/-! ## Links keep their identities -/

namespace Link

variable (link : Link)

theorem identity_establish : link.establish.identity = link.identity := rfl

theorem identity_cancel : link.cancel.identity = link.identity := rfl

theorem identity_shut (settings : Settings) (notify : Bool) :
    (link.shut settings notify).identity = link.identity := rfl

theorem identity_close (settings : Settings) (notify : Bool) :
    (link.close settings notify).identity = link.identity := by
  unfold close
  split <;> rfl

theorem identity_terminate : link.terminate.identity = link.identity := rfl

theorem identity_arrive (bytes : List UInt8) (ended : Bool) :
    (link.arrive bytes ended).identity = link.identity := rfl

/-- A message leaves a link what it is. -/
theorem identity_handle (now : Nat) (message : Except MeshError Wire.Message) :
    (link.handle now message).identity = link.identity := by
  rcases message with error | payload | _ <;> rfl

/-- Taking a frame leaves a link what it is. -/
theorem identity_takeFrame {link after : Link} {now : Nat} (htake : link.takeFrame now = some after) :
    after.identity = link.identity := by
  rw [takeFrame] at htake
  split at htake
  · simp at htake
  · obtain rfl := Option.some.inj htake
    exact identity_handle ..
  · obtain rfl := Option.some.inj htake
    rfl

/-- A turn of the read loop leaves a link what it is. -/
theorem identity_readOnce {link after : Link} {chance : Chance}
    (hread : link.readOnce chance = some after) : after.identity = link.identity := by
  rw [readOnce] at hread
  split at hread
  · exact identity_takeFrame hread
  · split at hread
    · obtain rfl := Option.some.inj hread
      rfl
    · simp at hread
  · obtain rfl := Option.some.inj hread
    rfl
  · simp at hread

/-- A turn of the read loop, whether there is something to read or not. -/
theorem identity_readOnce_getD (chance : Chance) :
    ((link.readOnce chance).getD link).identity = link.identity := by
  cases hread : link.readOnce chance with
  | none => rfl
  | some after => exact identity_readOnce hread

/-- Writing leaves a link what it is. -/
theorem identity_write (body : List UInt8) (writes : Bool) :
    (link.write body writes).2.identity = link.identity := by
  rw [write]
  split
  · split
    · split <;> rfl
    · rfl
  · rfl

/-- Sending leaves a link what it is, whatever deflates the payload. -/
theorem identity_sendBy (deflate : List UInt8 → List UInt8) (settings : Settings)
    (payload : Payload) (coin writes : Bool) :
    (link.sendBy deflate settings payload coin writes).2.identity = link.identity := by
  rw [sendBy]
  split
  · split
    · rfl
    · rfl
    · exact identity_write ..
  · rfl

/-- Sending leaves a link what it is. -/
theorem identity_send (settings : Settings) (payload : Payload) (coin writes : Bool) :
    (link.send settings payload coin writes).2.identity = link.identity :=
  identity_sendBy ..

/-- Links of one identity have one serial. -/
theorem serial_eq_of_identity {left right : Link} (h : left.identity = right.identity) :
    left.serial = right.serial := congrArg Identity.serial h

/-- Links of one identity lead to one neighbour. -/
theorem peer_eq_of_identity {left right : Link} (h : left.identity = right.identity) :
    left.peer = right.peer := congrArg Identity.peer h

/-- Links of one identity have one rank. -/
theorem nonce_eq_of_identity {left right : Link} (h : left.identity = right.identity) :
    left.nonce = right.nonce := congrArg Identity.nonce h

/-- Links of one identity were made in one session. -/
theorem session_eq_of_identity {left right : Link} (h : left.identity = right.identity) :
    left.session = right.session := congrArg Identity.session h

end Link

namespace Manager

variable {manager : Manager} {chance : Chance} {outcome : Outcome} {serial : Nat}

/-! ## Each action described -/

/-- The manager in which a link has its place in the table. -/
def established (manager : Manager) (link : Link) : Manager :=
  { manager.modifyLink link.serial Link.establish with
    table := manager.table.insert link.peer link.serial }

/-- A link asks for its place in the table without having to wait. -/
theorem perform_enter_of_link {link : Link} (hlink : manager.link? serial = some link) :
    manager.perform chance (.enter serial) =
      if manager.accepts chance.now link then
        some ⟨manager.established link,
          ((manager.table.get? link.peer).map (Action.close true)).toList ++ [.read serial],
          [.accepted link.peer serial]⟩
      else some ⟨manager, [.close true serial, .terminate serial], [.refused link.peer serial]⟩ := by
  simp only [perform, hlink, Option.bind_eq_bind, Option.bind_some, enter]
  cases manager.accepts chance.now link <;> rfl

/-- A link gets its place in the table, and the one that it displaces is closed before it is read;
or it is refused, closed and marked as terminated. -/
theorem perform_enter (hperform : manager.perform chance (.enter serial) = some outcome) :
    ∃ link, manager.link? serial = some link ∧
      ((manager.accepts chance.now link = true ∧
          outcome = ⟨manager.established link,
            ((manager.table.get? link.peer).map (Action.close true)).toList ++ [.read serial],
            [.accepted link.peer serial]⟩) ∨
        (manager.accepts chance.now link = false ∧
          outcome = ⟨manager, [.close true serial, .terminate serial],
            [.refused link.peer serial]⟩)) := by
  obtain ⟨link, hlink, -⟩ := Option.bind_eq_some_iff.1 hperform
  refine ⟨link, hlink, ?_⟩
  rw [perform_enter_of_link hlink] at hperform
  cases haccepts : manager.accepts chance.now link with
  | true =>
    rw [haccepts, if_pos rfl] at hperform
    exact .inl ⟨rfl, (Option.some.inj hperform).symm⟩
  | false =>
    rw [haccepts, if_neg (by simp)] at hperform
    exact .inr ⟨rfl, (Option.some.inj hperform).symm⟩

/-- A link is cancelled before its write half is given up, unless it is terminated. -/
theorem perform_close {notify : Bool}
    (hperform : manager.perform chance (.close notify serial) = some outcome) :
    ∃ link, manager.link? serial = some link ∧
      ((link.state = .terminated ∧ outcome = ⟨manager, [], []⟩) ∨
        (link.state ≠ .terminated ∧
          outcome = ⟨manager.modifyLink serial Link.cancel, [.shut notify serial], []⟩)) := by
  simp only [perform, Option.bind_eq_bind, Option.bind_eq_some_iff] at hperform
  obtain ⟨link, hlink, hstate⟩ := hperform
  refine ⟨link, hlink, ?_⟩
  by_cases hterminated : link.state = .terminated
  · rw [if_pos hterminated] at hstate
    exact .inl ⟨hterminated, (Option.some.inj hstate).symm⟩
  · rw [if_neg hterminated] at hstate
    exact .inr ⟨hterminated, (Option.some.inj hstate).symm⟩

/-- A read loop takes its turn and goes on, or ends and leaves the table. -/
theorem perform_read (hperform : manager.perform chance (.read serial) = some outcome) :
    ∃ link after, manager.link? serial = some link ∧ link.readOnce chance = some after ∧
      outcome.manager =
        manager.modifyLink serial (fun link => (link.readOnce chance).getD link) ∧
      ((∃ exit, after.readLoop = .ended exit ∧ outcome.next = [.leave serial exit] ∧
          outcome.marks = [.exited serial exit]) ∨
        ((∀ exit, after.readLoop ≠ .ended exit) ∧ outcome.next = [.read serial] ∧
          outcome.marks = [])) := by
  simp only [perform, Option.bind_eq_bind, Option.bind_eq_some_iff] at hperform
  obtain ⟨link, hlink, after, hread, hloop⟩ := hperform
  refine ⟨link, after, hlink, hread, ?_⟩
  cases hafter : after.readLoop with
  | ended exit =>
    rw [hafter] at hloop
    obtain rfl := Option.some.inj hloop
    exact ⟨rfl, .inl ⟨exit, rfl, rfl, rfl⟩⟩
  | idle =>
    rw [hafter] at hloop
    obtain rfl := Option.some.inj hloop
    exact ⟨rfl, .inr ⟨by simp, rfl, rfl⟩⟩
  | running =>
    rw [hafter] at hloop
    obtain rfl := Option.some.inj hloop
    exact ⟨rfl, .inr ⟨by simp, rfl, rfl⟩⟩

/-- A link whose read loop has ended leaves the table, and is closed unless it was cancelled. -/
theorem perform_leave {exit : LinkExit}
    (hperform : manager.perform chance (.leave serial exit) = some outcome) :
    ∃ link, manager.link? serial = some link ∧
      outcome = ⟨manager.release link,
        (if exit = .cancelled then [] else [Action.close false serial]) ++
          [.bury serial (manager.holds link)], [.left serial]⟩ := by
  simp only [perform, Option.bind_eq_bind, Option.bind_eq_some_iff] at hperform
  obtain ⟨link, hlink, hleave⟩ := hperform
  exact ⟨link, hlink, (Option.some.inj hleave).symm⟩

/-- A link whose read loop has ended is marked as terminated, and its neighbour is remembered or
looked for. -/
theorem perform_bury {released : Bool}
    (hperform : manager.perform chance (.bury serial released) = some outcome) :
    ∃ link, manager.link? serial = some link ∧
      ((released = true ∧
          outcome = ⟨(manager.modifyLink serial Link.terminate).remember link.peer, [], []⟩) ∨
        (released = false ∧
          outcome = ⟨manager.modifyLink serial Link.terminate, [.retain link.peer], []⟩)) := by
  simp only [perform, Option.bind_eq_bind, Option.bind_eq_some_iff] at hperform
  obtain ⟨link, hlink, hbury⟩ := hperform
  refine ⟨link, hlink, ?_⟩
  cases released with
  | true => exact .inl ⟨rfl, (Option.some.inj hbury).symm⟩
  | false => exact .inr ⟨rfl, (Option.some.inj hbury).symm⟩

/-- A neighbour is remembered unless it has another link. -/
theorem perform_retain {peer : NodeId}
    (hperform : manager.perform chance (.retain peer) = some outcome) :
    (manager.table.contains peer = true ∧ outcome = ⟨manager, [], []⟩) ∨
      (manager.table.contains peer = false ∧ outcome = ⟨manager.remember peer, [], []⟩) := by
  simp only [perform] at hperform
  cases hcontains : manager.table.contains peer with
  | true =>
    rw [hcontains] at hperform
    exact .inl ⟨rfl, (Option.some.inj hperform).symm⟩
  | false =>
    rw [hcontains] at hperform
    exact .inr ⟨rfl, (Option.some.inj hperform).symm⟩

/-- A payload is sent, lost or not sent; a link on which sending fails leaves the table. -/
theorem perform_send {payload : Payload}
    (hperform : manager.perform chance (.send payload serial) = some outcome) :
    ∃ link, manager.link? serial = some link ∧
      outcome.manager = manager.modifyLink serial (fun link =>
        (link.send manager.settings payload chance.coin chance.writes).2) ∧
      ((∃ error, (link.send manager.settings payload chance.coin chance.writes).1 = .failed error ∧
          outcome.next = [.drop serial] ∧ outcome.marks = [.failed serial]) ∨
        ((∀ error, (link.send manager.settings payload chance.coin chance.writes).1 ≠
            .failed error) ∧ outcome.next = [] ∧ outcome.marks = [])) := by
  simp only [perform, Option.bind_eq_bind, Option.bind_eq_some_iff] at hperform
  obtain ⟨link, hlink, hsend⟩ := hperform
  refine ⟨link, hlink, ?_⟩
  cases hdelivery : (link.send manager.settings payload chance.coin chance.writes).1 with
  | failed error =>
    rw [hdelivery] at hsend
    obtain rfl := Option.some.inj hsend
    exact ⟨rfl, .inl ⟨error, rfl, rfl, rfl⟩⟩
  | delivered =>
    rw [hdelivery] at hsend
    obtain rfl := Option.some.inj hsend
    exact ⟨rfl, .inr ⟨by simp, rfl, rfl⟩⟩
  | dropped =>
    rw [hdelivery] at hsend
    obtain rfl := Option.some.inj hsend
    exact ⟨rfl, .inr ⟨by simp, rfl, rfl⟩⟩

/-- A link on which sending failed leaves the table and is closed. -/
theorem perform_drop (hperform : manager.perform chance (.drop serial) = some outcome) :
    ∃ link, manager.link? serial = some link ∧
      outcome = ⟨manager.release link, [.close false serial], [.left serial]⟩ := by
  simp only [perform, Option.bind_eq_bind, Option.bind_eq_some_iff] at hperform
  obtain ⟨link, hlink, hdrop⟩ := hperform
  exact ⟨link, hlink, (Option.some.inj hdrop).symm⟩

/-! ## What is pending

When an action is done, it is taken out of what is pending, and what follows from it is put in. -/

section Pending

variable {front back next : List Action} {action other : Action}

/-- What stays pending was pending before. -/
theorem mem_pending_of_kept (hkept : other ∈ front ++ back) : other ∈ front ++ action :: back := by
  rcases List.mem_append.1 hkept with hfront | hback
  · exact List.mem_append_left _ hfront
  · exact List.mem_append_right _ (List.mem_cons_of_mem _ hback)

/-- What is pending stayed pending or is new. -/
theorem mem_kept_or_next (hmem : other ∈ front ++ (next ++ back)) :
    other ∈ front ++ back ∨ other ∈ next := by
  rcases List.mem_append.1 hmem with hfront | hrest
  · exact .inl (List.mem_append_left _ hfront)
  · rcases List.mem_append.1 hrest with hnext | hback
    · exact .inr hnext
    · exact .inl (List.mem_append_right _ hback)

/-- What was pending stays pending, apart from the action that is done. -/
theorem mem_pending_of_ne (hother : other ∈ front ++ action :: back) (hne : other ≠ action) :
    other ∈ front ++ (next ++ back) := by
  rcases List.mem_append.1 hother with hfront | hrest
  · exact List.mem_append_left _ hfront
  · rcases List.mem_cons.1 hrest with hsame | hback
    · exact absurd hsame hne
    · exact List.mem_append_right _ (List.mem_append_right _ hback)

/-- What follows from an action is pending. -/
theorem mem_pending_of_next (hnext : other ∈ next) : other ∈ front ++ (next ++ back) :=
  List.mem_append_right _ (List.mem_append_left _ hnext)

end Pending

/-! ## What holds of every action -/

/-- What no action changes: the links as far as they are what they are, the session, the timing and the
settings. -/
structure Continues (before after : Manager) : Prop where
  links : SameLinks before after
  session : after.session = before.session
  sessionCount : after.sessionCount = before.sessionCount
  timing : after.timing = before.timing
  settings : after.settings = before.settings

namespace Continues

/-- Nothing is changed by doing nothing. -/
theorem refl (manager : Manager) : Continues manager manager := ⟨.refl manager, rfl, rfl, rfl, rfl⟩

/-- One change after the other. -/
theorem trans {first second third : Manager} (hfirst : Continues first second)
    (hsecond : Continues second third) : Continues first third :=
  ⟨hfirst.links.trans hsecond.links, hsecond.session.trans hfirst.session,
    hsecond.sessionCount.trans hfirst.sessionCount, hsecond.timing.trans hfirst.timing,
    hsecond.settings.trans hfirst.settings⟩

/-- Links are changed in what may change about them. -/
theorem modifyLink (manager : Manager) (serial : Nat) {change : Link → Link}
    (hidentity : ∀ link, (change link).identity = link.identity) :
    Continues manager (manager.modifyLink serial change) :=
  ⟨.modifyLink manager serial hidentity, rfl, rfl, rfl, rfl⟩

/-- The last state of a neighbour is kept. -/
theorem remember (manager : Manager) (peer : NodeId) : Continues manager (manager.remember peer) :=
  ⟨.refl manager, rfl, rfl, rfl, rfl⟩

/-- The table lets go of a link. -/
theorem release (manager : Manager) (link : Link) : Continues manager (manager.release link) := by
  rw [Manager.release]
  split
  · exact ⟨.refl manager, rfl, rfl, rfl, rfl⟩
  · exact .refl manager

/-- A stop marks a link as terminated. -/
theorem finishLink (manager : Manager) (serial : Nat) :
    Continues manager (manager.finishLink serial) := by
  rw [Manager.finishLink]
  split
  · exact .refl manager
  · exact (modifyLink manager serial Link.identity_terminate).trans (remember ..)

/-- A stop marks its links as terminated. -/
theorem finishStop (manager : Manager) (serials : List Nat) :
    Continues manager (manager.finishStop serials) := by
  induction serials generalizing manager with
  | nil => exact .refl manager
  | cons serial rest ih => exact (finishLink manager serial).trans (ih _)

end Continues

/-- Every action lets the links be what they are. -/
theorem continues_perform {action : Action}
    (hperform : manager.perform chance action = some outcome) :
    Continues manager outcome.manager := by
  cases action with
  | enter serial =>
    obtain ⟨link, -, ⟨-, rfl⟩ | ⟨-, rfl⟩⟩ := perform_enter hperform
    · exact ⟨.modifyLink manager _ Link.identity_establish, rfl, rfl, rfl, rfl⟩
    · exact .refl manager
  | close notify serial =>
    obtain ⟨link, -, ⟨-, rfl⟩ | ⟨-, rfl⟩⟩ := perform_close hperform
    · exact .refl manager
    · exact .modifyLink manager serial Link.identity_cancel
  | shut notify serial =>
    obtain rfl := Option.some.inj hperform
    exact .modifyLink manager serial fun link => link.identity_shut _ _
  | terminate serial =>
    obtain rfl := Option.some.inj hperform
    exact .modifyLink manager serial Link.identity_terminate
  | read serial =>
    obtain ⟨link, after, -, -, hmanager, -⟩ := perform_read hperform
    rw [hmanager]
    exact .modifyLink manager serial fun link => link.identity_readOnce_getD chance
  | leave serial exit =>
    obtain ⟨link, -, rfl⟩ := perform_leave hperform
    exact .release manager link
  | bury serial released =>
    obtain ⟨link, -, ⟨-, rfl⟩ | ⟨-, rfl⟩⟩ := perform_bury hperform
    · exact (Continues.modifyLink manager serial Link.identity_terminate).trans (.remember ..)
    · exact .modifyLink manager serial Link.identity_terminate
  | retain peer =>
    obtain ⟨-, rfl⟩ | ⟨-, rfl⟩ := perform_retain hperform
    · exact .refl manager
    · exact .remember ..
  | send payload serial =>
    obtain ⟨link, -, hmanager, -⟩ := perform_send hperform
    rw [hmanager]
    exact .modifyLink manager serial fun link => link.identity_send ..
  | drop serial =>
    obtain ⟨link, -, rfl⟩ := perform_drop hperform
    exact .release manager link
  | drain session =>
    obtain rfl := Option.some.inj hperform
    exact ⟨.refl manager, rfl, rfl, rfl, rfl⟩
  | finish session serials =>
    obtain rfl := Option.some.inj hperform
    exact .finishStop manager serials

/-- The link of another serial stays as it is. -/
theorem link?_modifyLink_of_ne {other : Nat} {change : Link → Link}
    (hserial : ∀ link, (change link).serial = link.serial) (hne : other ≠ serial) :
    (manager.modifyLink serial change).link? other = manager.link? other := by
  rw [link?_modifyLink manager serial other hserial, if_neg hne]

/-- Letting go of a link in the table leaves all links as they are. -/
theorem link?_release (manager : Manager) (link : Link) (other : Nat) :
    (manager.release link).link? other = manager.link? other := by
  rw [release]
  split <;> rfl

/-- The last step of a stop leaves the table as it is. -/
theorem table_finishStop (manager : Manager) (serials : List Nat) :
    (manager.finishStop serials).table = manager.table := by
  induction serials generalizing manager with
  | nil => rfl
  | cons serial rest ih =>
    have hfinish : (manager.finishLink serial).table = manager.table := by
      rw [finishLink]
      split <;> rfl
    exact (ih _).trans hfinish

/-- A stop leaves the links alone that it does not close. -/
theorem link?_finishStop {serials : List Nat} {other : Nat} (hother : other ∉ serials) :
    (manager.finishStop serials).link? other = manager.link? other := by
  induction serials generalizing manager with
  | nil => rfl
  | cons serial rest ih =>
    obtain ⟨hne, hrest⟩ : other ≠ serial ∧ other ∉ rest := by simpa using hother
    have hfinish : (manager.finishLink serial).link? other = manager.link? other := by
      rw [finishLink]
      split
      · rfl
      · exact link?_modifyLink_of_ne (fun _ => rfl) hne
    exact (ih hrest).trans hfinish

/-- An action touches only the links that it means. -/
theorem link?_perform {action : Action} {other : Nat}
    (hperform : manager.perform chance action = some outcome) (hother : other ∉ action.targets) :
    outcome.manager.link? other = manager.link? other := by
  cases action with
  | enter serial =>
    have hne : other ≠ serial := by simpa [Action.targets] using hother
    obtain ⟨link, hlink, ⟨-, rfl⟩ | ⟨-, rfl⟩⟩ := perform_enter hperform
    · exact link?_modifyLink_of_ne (fun _ => rfl) (serial_of_link? hlink ▸ hne)
    · rfl
  | close notify serial =>
    have hne : other ≠ serial := by simpa [Action.targets] using hother
    obtain ⟨link, -, ⟨-, rfl⟩ | ⟨-, rfl⟩⟩ := perform_close hperform
    · rfl
    · exact link?_modifyLink_of_ne (fun _ => rfl) hne
  | shut notify serial =>
    have hne : other ≠ serial := by simpa [Action.targets] using hother
    obtain rfl := Option.some.inj hperform
    exact link?_modifyLink_of_ne (fun _ => rfl) hne
  | terminate serial =>
    have hne : other ≠ serial := by simpa [Action.targets] using hother
    obtain rfl := Option.some.inj hperform
    exact link?_modifyLink_of_ne (fun _ => rfl) hne
  | read serial =>
    have hne : other ≠ serial := by simpa [Action.targets] using hother
    obtain ⟨link, after, -, -, hmanager, -⟩ := perform_read hperform
    rw [hmanager]
    exact link?_modifyLink_of_ne
      (fun link => Link.serial_eq_of_identity (link.identity_readOnce_getD chance)) hne
  | leave serial exit =>
    obtain ⟨link, -, rfl⟩ := perform_leave hperform
    exact link?_release ..
  | bury serial released =>
    have hne : other ≠ serial := by simpa [Action.targets] using hother
    obtain ⟨link, -, ⟨-, rfl⟩ | ⟨-, rfl⟩⟩ := perform_bury hperform
    · exact link?_modifyLink_of_ne (fun _ => rfl) hne
    · exact link?_modifyLink_of_ne (fun _ => rfl) hne
  | retain peer =>
    obtain ⟨-, rfl⟩ | ⟨-, rfl⟩ := perform_retain hperform <;> rfl
  | send payload serial =>
    have hne : other ≠ serial := by simpa [Action.targets] using hother
    obtain ⟨link, -, hmanager, -⟩ := perform_send hperform
    rw [hmanager]
    exact link?_modifyLink_of_ne
      (fun link => Link.serial_eq_of_identity (link.identity_send ..)) hne
  | drop serial =>
    obtain ⟨link, -, rfl⟩ := perform_drop hperform
    exact link?_release ..
  | drain session =>
    obtain rfl := Option.some.inj hperform
    rfl
  | finish session serials =>
    obtain rfl := Option.some.inj hperform
    exact link?_finishStop hother

/-- An action takes a link out of its place in the table, so that it has to be closed. -/
def Evicts (manager : Manager) (now : Nat) (action : Action) (target : Nat) : Prop :=
  (∃ serial link, action = .enter serial ∧ manager.link? serial = some link ∧
    manager.accepts now link = true ∧ manager.table.get? link.peer = some target) ∨
  (∃ session peer, action = .drain session ∧ manager.table.get? peer = some target)

/-- Only what is in the table is taken out of it. -/
theorem Evicts.exists_get? {now target : Nat} {action : Action}
    (hevicts : manager.Evicts now action target) :
    ∃ peer, manager.table.get? peer = some target := by
  rcases hevicts with ⟨serial, link, -, -, -, hget⟩ | ⟨session, peer, -, hget⟩
  · exact ⟨link.peer, hget⟩
  · exact ⟨peer, hget⟩

/-- What a task has to do next never begins a task, and it concerns the links that the action meant
or took out of the table. -/
theorem follows_perform {action next : Action}
    (hperform : manager.perform chance action = some outcome) (hnext : next ∈ outcome.next) :
    next.begins = false ∧ ∀ target ∈ next.targets,
      target ∈ action.targets ∨ manager.Evicts chance.now action target := by
  cases action with
  | enter serial =>
    obtain ⟨link, hlink, ⟨haccepts, rfl⟩ | ⟨-, rfl⟩⟩ := perform_enter hperform
    · rcases List.mem_append.1 hnext with hclose | hread
      · obtain ⟨displaced, hdisplaced, rfl⟩ : ∃ displaced,
            manager.table.get? link.peer = some displaced ∧ Action.close true displaced = next := by
          simpa using hclose
        refine ⟨rfl, fun target htarget => .inr (.inl ⟨serial, link, rfl, hlink, haccepts, ?_⟩)⟩
        rwa [show target = displaced by simpa [Action.targets] using htarget]
      · obtain rfl : next = .read serial := by simpa using hread
        exact ⟨rfl, fun target htarget => .inl htarget⟩
    · have hown : next = .close true serial ∨ next = .terminate serial := by simpa using hnext
      rcases hown with rfl | rfl <;> exact ⟨rfl, fun target htarget => .inl htarget⟩
  | close notify serial =>
    obtain ⟨link, -, ⟨-, rfl⟩ | ⟨-, rfl⟩⟩ := perform_close hperform
    · exact absurd hnext List.not_mem_nil
    · obtain rfl : next = .shut notify serial := by simpa using hnext
      exact ⟨rfl, fun target htarget => .inl htarget⟩
  | shut notify serial =>
    obtain rfl := Option.some.inj hperform
    exact absurd hnext List.not_mem_nil
  | terminate serial =>
    obtain rfl := Option.some.inj hperform
    exact absurd hnext List.not_mem_nil
  | read serial =>
    obtain ⟨link, after, -, -, -, ⟨exit, -, hnexts, -⟩ | ⟨-, hnexts, -⟩⟩ := perform_read hperform
    · obtain rfl : next = .leave serial exit := by simpa [hnexts] using hnext
      exact ⟨rfl, fun target htarget => .inl htarget⟩
    · obtain rfl : next = .read serial := by simpa [hnexts] using hnext
      exact ⟨rfl, fun target htarget => .inl htarget⟩
  | leave serial exit =>
    obtain ⟨link, -, rfl⟩ := perform_leave hperform
    rcases List.mem_append.1 hnext with hclose | hbury
    · split at hclose
      · exact absurd hclose List.not_mem_nil
      · obtain rfl : next = .close false serial := by simpa using hclose
        exact ⟨rfl, fun target htarget => .inl htarget⟩
    · obtain rfl : next = .bury serial (manager.holds link) := by simpa using hbury
      exact ⟨rfl, fun target htarget => .inl htarget⟩
  | bury serial released =>
    obtain ⟨link, -, ⟨-, rfl⟩ | ⟨-, rfl⟩⟩ := perform_bury hperform
    · exact absurd hnext List.not_mem_nil
    · obtain rfl : next = .retain link.peer := by simpa using hnext
      exact ⟨rfl, fun target htarget => absurd htarget List.not_mem_nil⟩
  | retain peer =>
    obtain ⟨-, rfl⟩ | ⟨-, rfl⟩ := perform_retain hperform <;> exact absurd hnext List.not_mem_nil
  | send payload serial =>
    obtain ⟨link, -, -, ⟨error, -, hnexts, -⟩ | ⟨-, hnexts, -⟩⟩ := perform_send hperform
    · obtain rfl : next = .drop serial := by simpa [hnexts] using hnext
      exact ⟨rfl, fun target htarget => .inl htarget⟩
    · exact absurd (hnexts ▸ hnext) List.not_mem_nil
  | drop serial =>
    obtain ⟨link, -, rfl⟩ := perform_drop hperform
    obtain rfl : next = .close false serial := by simpa using hnext
    exact ⟨rfl, fun target htarget => .inl htarget⟩
  | drain session =>
    obtain rfl := Option.some.inj hperform
    have hvalues : ∀ target ∈ manager.visits chance.order,
        manager.Evicts chance.now (.drain session) target := by
      intro target htarget
      obtain ⟨peer, hget⟩ := manager.table.mem_values_iff.1 (mem_visits_iff.1 htarget)
      exact .inr ⟨session, peer, rfl, hget⟩
    rcases List.mem_append.1 hnext with hclose | hfinish
    · obtain ⟨serial, hserial, rfl⟩ := List.mem_map.1 hclose
      refine ⟨rfl, fun target htarget => .inr (hvalues target ?_)⟩
      rwa [show target = serial by simpa [Action.targets] using htarget]
    · obtain rfl : next = .finish session (manager.visits chance.order) := by simpa using hfinish
      exact ⟨rfl, fun target htarget => .inr (hvalues target htarget)⟩
  | finish session serials =>
    obtain rfl := Option.some.inj hperform
    exact absurd hnext List.not_mem_nil

/-- What begins a task does not follow from an action, so it was pending before. -/
theorem mem_of_begins {front back : List Action} {action other : Action}
    (hperform : manager.perform chance action = some outcome) (hbegins : other.begins = true)
    (hmem : other ∈ front ++ (outcome.next ++ back)) : other ∈ front ++ back := by
  rcases mem_kept_or_next hmem with hkept | hnext
  · exact hkept
  · rw [(follows_perform hperform hnext).1] at hbegins
    exact absurd hbegins (by simp)

/-- The table is changed in four ways: not at all, by a link that gets its place, by a link that
leaves, or by a stop that empties it; and what has happened tells in which. -/
theorem table_perform {action : Action} (hperform : manager.perform chance action = some outcome) :
    (outcome.manager.table = manager.table ∧ ∀ mark ∈ outcome.marks, mark.isPassing = true) ∨
    (∃ serial link, action = .enter serial ∧ manager.link? serial = some link ∧
      manager.accepts chance.now link = true ∧
      outcome.manager.table = manager.table.insert link.peer serial ∧
      outcome.marks = [.accepted link.peer serial]) ∨
    (∃ serial link, ((∃ exit, action = .leave serial exit) ∨ action = .drop serial) ∧
      manager.link? serial = some link ∧ outcome.manager = manager.release link ∧
      outcome.marks = [.left serial]) ∨
    (∃ session, action = .drain session ∧ outcome.manager.table = ∅ ∧
      outcome.marks = [.drained]) := by
  cases action with
  | enter serial =>
    obtain ⟨link, hlink, ⟨haccepts, rfl⟩ | ⟨-, rfl⟩⟩ := perform_enter hperform
    · refine .inr (.inl ⟨serial, link, rfl, hlink, haccepts, ?_, rfl⟩)
      rw [← serial_of_link? hlink]
      rfl
    · exact .inl ⟨rfl, by simp [Mark.isPassing]⟩
  | close notify serial =>
    obtain ⟨link, -, ⟨-, rfl⟩ | ⟨-, rfl⟩⟩ := perform_close hperform
    · exact .inl ⟨rfl, by simp⟩
    · exact .inl ⟨rfl, by simp⟩
  | shut notify serial =>
    obtain rfl := Option.some.inj hperform
    exact .inl ⟨rfl, by simp⟩
  | terminate serial =>
    obtain rfl := Option.some.inj hperform
    exact .inl ⟨rfl, by simp⟩
  | read serial =>
    obtain ⟨link, after, -, -, hmanager, ⟨exit, -, -, hmarks⟩ | ⟨-, -, hmarks⟩⟩ :=
      perform_read hperform
    · exact .inl ⟨by rw [hmanager]; rfl, by simp [hmarks, Mark.isPassing]⟩
    · exact .inl ⟨by rw [hmanager]; rfl, by simp [hmarks]⟩
  | leave serial exit =>
    obtain ⟨link, hlink, rfl⟩ := perform_leave hperform
    exact .inr (.inr (.inl ⟨serial, link, .inl ⟨exit, rfl⟩, hlink, rfl, rfl⟩))
  | bury serial released =>
    obtain ⟨link, -, ⟨-, rfl⟩ | ⟨-, rfl⟩⟩ := perform_bury hperform
    · exact .inl ⟨rfl, by simp⟩
    · exact .inl ⟨rfl, by simp⟩
  | retain peer =>
    obtain ⟨-, rfl⟩ | ⟨-, rfl⟩ := perform_retain hperform <;> exact .inl ⟨rfl, by simp⟩
  | send payload serial =>
    obtain ⟨link, -, hmanager, ⟨error, -, -, hmarks⟩ | ⟨-, -, hmarks⟩⟩ := perform_send hperform
    · exact .inl ⟨by rw [hmanager]; rfl, by simp [hmarks, Mark.isPassing]⟩
    · exact .inl ⟨by rw [hmanager]; rfl, by simp [hmarks]⟩
  | drop serial =>
    obtain ⟨link, hlink, rfl⟩ := perform_drop hperform
    exact .inr (.inr (.inl ⟨serial, link, .inr rfl, hlink, rfl, rfl⟩))
  | drain session =>
    obtain rfl := Option.some.inj hperform
    exact .inr (.inr (.inr ⟨session, rfl, rfl, rfl⟩))
  | finish session serials =>
    obtain rfl := Option.some.inj hperform
    exact .inl ⟨table_finishStop manager serials, by simp⟩

end Manager

end RegionGossip
