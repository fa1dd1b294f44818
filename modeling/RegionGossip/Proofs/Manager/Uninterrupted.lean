import RegionGossip.Proofs.Manager.Runs

/-!
# Tasks that are not interrupted

A task whose actions are done one after the other, without another task in between, does at once what
the operations of a manager do: a new link is registered, a read loop takes what has arrived and comes
to its end, a payload is broadcast, and the links of a stop are closed.
-/

namespace RegionGossip

namespace Link

/-- Taking frames leaves a link what it is. -/
theorem identity_readFrame (link : Link) (now : Nat) :
    (link.readFrame now).identity = link.identity := by
  unfold readFrame
  split
  · split
    · rfl
    · cases htake : link.takeFrame now with
      | none => rfl
      | some after => exact identity_takeFrame htake
  · rfl

/-- A read loop that has ended has nothing to do. -/
theorem readFrame_of_ended {link : Link} {exit : LinkExit} (hended : link.readLoop = .ended exit)
    (now : Nat) : link.readFrame now = link := by
  unfold readFrame
  rw [hended]

/-- A read loop that has nothing to do takes nothing, however often it gets its turn. -/
theorem readFrames_eq_self {link : Link} {now : Nat} (hidle : link.readFrame now = link)
    (fuel : Nat) : readFrames now fuel link = link := by
  induction fuel with
  | zero => rfl
  | succ fuel ih => rw [readFrames, hidle, ih]

/-- A read loop that takes a frame goes on or ends, and the state of the link stays. -/
theorem readLoop_takeFrame {link after : Link} {now : Nat} (hrunning : link.readLoop = .running)
    (htake : link.takeFrame now = some after) :
    (after.readLoop = .running ∨ ∃ exit, after.readLoop = .ended exit) ∧
      after.state = link.state := by
  unfold takeFrame at htake
  split at htake
  · simp at htake
  · rename_i content rest _
    obtain rfl := Option.some.inj htake
    rcases Wire.decodeMessage content with error | payload | _
    · exact ⟨.inr ⟨_, rfl⟩, rfl⟩
    · exact ⟨.inl hrunning, rfl⟩
    · exact ⟨.inr ⟨_, rfl⟩, rfl⟩
  · obtain rfl := Option.some.inj htake
    exact ⟨.inr ⟨_, rfl⟩, rfl⟩

/-- A read loop takes a frame when it gets its turn, or ends because it was cancelled; then it goes on
or has ended. Otherwise it has nothing to do. -/
theorem readOnce_readFrame {link : Link} (hrunning : link.readLoop = .running) (now : Nat) :
    ∃ chance : Chance, chance.now = now ∧
      ((link.readOnce chance = none ∧ link.readFrame now = link) ∨
        (link.readOnce chance = some (link.readFrame now) ∧
          ((link.readFrame now).readLoop = .running ∨
            ∃ exit, (link.readFrame now).readLoop = .ended exit) ∧
          (link.readFrame now).state = link.state)) := by
  by_cases hcancelled : link.cancelled = true
  · have hframe : link.readFrame now = link.endReading .cancelled := by
      simp [readFrame, hrunning, hcancelled]
    refine ⟨{ now, reading := .cancellation }, rfl, .inr ?_⟩
    rw [hframe]
    exact ⟨by simp [readOnce, hrunning, hcancelled], .inr ⟨.cancelled, rfl⟩, rfl⟩
  · have hframe : link.readFrame now = (link.takeFrame now).getD link := by
      simp [readFrame, hrunning, hcancelled]
    have honce : link.readOnce { now } = link.takeFrame now := by
      simp [readOnce, hrunning]
    refine ⟨{ now }, rfl, ?_⟩
    rw [hframe, honce]
    cases htake : link.takeFrame now with
    | none => exact .inl ⟨rfl, rfl⟩
    | some after => exact .inr ⟨rfl, readLoop_takeFrame hrunning htake⟩

end Link

namespace Manager

/-- The actions of a task are done one after the other, at one time and without an interruption, until
some are left. The last action of a stop has to wait for other tasks. -/
inductive Proceeds (now : Nat) : Manager → List Action → Manager → List Action → Prop
  | refl (manager : Manager) (actions : List Action) : Proceeds now manager actions manager actions
  | step {manager final : Manager} {chance : Chance} {action : Action} {outcome : Outcome}
      {rest left : List Action} (hnow : chance.now = now)
      (hfinish : ∀ session serials, action ≠ .finish session serials)
      (hperform : manager.perform chance action = some outcome)
      (hlater : Proceeds now outcome.manager (outcome.next ++ rest) final left) :
      Proceeds now manager (action :: rest) final left

namespace Proceeds

variable {now : Nat} {manager middle final : Manager} {actions rest left : List Action}

/-- One stretch after the other. -/
theorem trans {next : List Action} (hfirst : Proceeds now manager actions middle next)
    (hsecond : Proceeds now middle next final left) : Proceeds now manager actions final left := by
  induction hfirst with
  | refl => exact hsecond
  | step hnow hfinish hperform _ ih => exact .step hnow hfinish hperform (ih hsecond)

/-- What a task proceeds to is what its turns lead to. -/
theorem exists_run {busy : BusyManager} {index : Nat} {task : Task}
    (hproceeds : Proceeds now busy.manager actions final left)
    (htask : busy.tasks[index]? = some task) (hactions : task.actions = actions) :
    ∃ (chances : List Chance) (after : BusyManager), busy.run (chances.map (Event.work index)) = some after ∧
      after.manager = final ∧ after.sessions = busy.sessions ∧
      after.tasks = busy.tasks.set index { task with actions := left } := by
  generalize hmanager : busy.manager = manager at hproceeds
  induction hproceeds generalizing busy task with
  | refl manager actions =>
    refine ⟨[], busy, rfl, hmanager, rfl, ?_⟩
    obtain ⟨hindex, hfound⟩ := List.getElem?_eq_some_iff.1 htask
    rw [← hactions, ← hfound, List.set_getElem_self]
  | @step manager final chance action outcome rest left _ hfinish hperform _ ih =>
    subst hmanager
    have hbegins : busy.mayBegin action = true := by
      cases action with
      | finish session serials => exact absurd rfl (hfinish session serials)
      | _ => rfl
    let worked : BusyManager := { busy with
      manager := outcome.manager
      tasks := busy.tasks.set index { task with actions := outcome.next ++ rest }
      trace := outcome.marks ++ busy.trace }
    have hwork : busy.step (.work index chance) = some worked := by
      simp only [BusyManager.step, BusyManager.work, htask, hactions, hbegins, hperform, if_true,
        Option.bind_eq_bind, Option.bind_some]
      rfl
    have hindex := (List.getElem?_eq_some_iff.1 htask).1
    have hworked : worked.tasks[index]? = some { task with actions := outcome.next ++ rest } :=
      List.getElem?_set_self hindex
    obtain ⟨chances, after, hrun, hfinal, hsessions, htasks⟩ := ih hworked rfl rfl
    refine ⟨chance :: chances, after, ?_, hfinal, hsessions, ?_⟩
    · rw [List.map_cons, BusyManager.run, hwork, Option.bind_some, hrun]
    · rw [htasks, List.set_set]

/-- A link is closed at once. -/
theorem close {notify : Bool} {serial : Nat} {link : Link} (hnumbered : manager.Numbered)
    (hlink : manager.link? serial = some link) :
    Proceeds now manager (.close notify serial :: rest) (manager.closeLink notify serial) rest := by
  have hperform : manager.perform { now } (.close notify serial) =
      if link.state = .terminated then some ⟨manager, [], []⟩
      else some ⟨manager.modifyLink serial Link.cancel, [.shut notify serial], []⟩ := by
    simp only [perform, hlink, Option.bind_eq_bind, Option.bind_some]
  by_cases hstate : link.state = .terminated
  · have hclosed : manager.closeLink notify serial = manager :=
      modifyLink_eq_self hnumbered hlink (if_pos hstate)
    rw [if_pos hstate] at hperform
    rw [hclosed]
    exact .step rfl (by simp) hperform (.refl manager rest)
  · have hclosed : manager.closeLink notify serial =
        (manager.modifyLink serial Link.cancel).modifyLink serial
          (Link.shut manager.settings notify) := by
      have hboth : (manager.modifyLink serial Link.cancel).modifyLink serial
          (Link.shut manager.settings notify) =
            manager.modifyLink serial fun link => link.cancel.shut manager.settings notify :=
        modifyLink_modifyLink manager serial _ fun _ => rfl
      rw [hboth]
      exact modifyLink_congr hnumbered hlink (if_neg hstate)
    have hshut : (manager.modifyLink serial Link.cancel).perform { now } (.shut notify serial) =
        some ⟨(manager.modifyLink serial Link.cancel).modifyLink serial
          (Link.shut manager.settings notify), [], []⟩ := rfl
    rw [if_neg hstate] at hperform
    rw [hclosed]
    exact .step rfl (by simp) hperform (.step rfl (by simp) hshut (.refl _ rest))

/-- The links of a stop are closed one after the other. -/
theorem closeAll {serials : List Nat} (hnumbered : manager.Numbered)
    (hknown : ∀ serial ∈ serials, (manager.link? serial).isSome = true) :
    Proceeds now manager (serials.map (Action.close true) ++ rest) (manager.closeAll serials)
      rest := by
  induction serials generalizing manager with
  | nil => exact .refl manager rest
  | cons serial others ih =>
    obtain ⟨link, hlink⟩ := Option.isSome_iff_exists.1 (hknown serial List.mem_cons_self)
    have hsame : SameLinks manager (manager.closeLink true serial) :=
      .modifyLink manager serial fun link => link.identity_close ..
    refine (close hnumbered hlink).trans (ih (hsame.numbered hnumbered) fun other hother => ?_)
    exact Wired.isSome_of_sameLinks hsame (hknown other (List.mem_cons_of_mem _ hother))

/-- A link whose read loop has ended is marked as terminated, and its neighbour is remembered unless
it has another link. -/
theorem bury {serial : Nat} {link : Link} (hlink : manager.link? serial = some link)
    (released : Bool) :
    Proceeds now manager (.bury serial released :: rest)
      (if released || !manager.table.contains link.peer then
        (manager.modifyLink serial Link.terminate).remember link.peer
      else manager.modifyLink serial Link.terminate) rest := by
  let buried := manager.modifyLink serial Link.terminate
  have hbury : manager.perform { now } (.bury serial released) =
      if released then some ⟨buried.remember link.peer, [], []⟩
      else some ⟨buried, [.retain link.peer], []⟩ := by
    simp only [perform, hlink, Option.bind_eq_bind, Option.bind_some]
    rfl
  have hretain : buried.perform { now } (.retain link.peer) =
      if manager.table.contains link.peer then some ⟨buried, [], []⟩
      else some ⟨buried.remember link.peer, [], []⟩ := rfl
  cases released with
  | true =>
    refine .step rfl (by simp) hbury ?_
    exact .refl _ rest
  | false =>
    refine .step rfl (by simp) hbury ?_
    cases hcontains : manager.table.contains link.peer with
    | true =>
      rw [hcontains, if_pos rfl] at hretain
      refine .step rfl (by simp) hretain ?_
      exact .refl _ rest
    | false =>
      rw [hcontains, if_neg (by simp)] at hretain
      refine .step rfl (by simp) hretain ?_
      exact .refl _ rest

/-- A link whose read loop has ended comes to its end. -/
theorem exitLink {serial : Nat} {link : Link} {exit : LinkExit} (hnumbered : manager.Numbered)
    (hlink : manager.link? serial = some link) :
    Proceeds now manager (.leave serial exit :: rest) (manager.exitLink serial exit) rest := by
  have hreleased : (manager.release link).link? serial = some link := by rw [link?_release, hlink]
  have hsame := Continues.release manager link
  have hleave : manager.perform { now } (.leave serial exit) =
      some ⟨manager.release link, (if exit = .cancelled then [] else [Action.close false serial]) ++
        [.bury serial (manager.holds link)], [.left serial]⟩ := by
    simp only [perform, hlink, Option.bind_eq_bind, Option.bind_some]
  refine .step rfl (by simp) hleave ?_
  unfold Manager.exitLink
  rw [hlink, List.append_assoc]
  by_cases hexit : exit = .cancelled
  · simp only [hexit, if_true]
    exact bury hreleased _
  · simp only [hexit, if_false]
    have hclosed : SameLinks (manager.release link) ((manager.release link).closeLink false serial) :=
      .modifyLink _ serial fun link => link.identity_close ..
    obtain ⟨found, hfound, hidentity⟩ := hclosed.exists_after hreleased
    refine (close (hsame.links.numbered hnumbered) hreleased).trans ?_
    rw [← Link.peer_eq_of_identity hidentity]
    exact bury hfound _

/-- A read loop takes the frames that have arrived, one after the other, until it ends or has to
wait. -/
theorem readFrames {serial fuel : Nat} {link : Link} (hnumbered : manager.Numbered)
    (hlink : manager.link? serial = some link) (hrunning : link.readLoop = .running)
    (hstate : link.state ≠ .terminated) :
    ∃ left, (left = [] ∨ left = [.read serial]) ∧ Proceeds now manager [.read serial]
      ((manager.modifyLink serial (Link.readFrames now fuel)).settleLink serial) left := by
  induction fuel generalizing manager link with
  | zero =>
    have hsame : manager.modifyLink serial (Link.readFrames now 0) = manager :=
      modifyLink_eq_self hnumbered hlink rfl
    refine ⟨[.read serial], .inr rfl, ?_⟩
    rw [hsame]
    simp only [settleLink, hlink, hrunning]
    exact .refl manager _
  | succ fuel ih =>
    obtain ⟨chance, hnow, ⟨-, hidle⟩ | ⟨honce, hloop, hkept⟩⟩ := Link.readOnce_readFrame hrunning now
    · have hsame : manager.modifyLink serial (Link.readFrames now (fuel + 1)) = manager :=
        modifyLink_eq_self hnumbered hlink (Link.readFrames_eq_self hidle _)
      refine ⟨[.read serial], .inr rfl, ?_⟩
      rw [hsame]
      simp only [settleLink, hlink, hrunning]
      exact .refl manager _
    · let read := manager.modifyLink serial fun link => link.readFrame now
      have hserial : ∀ link : Link, (link.readFrame now).serial = link.serial :=
        fun link => Link.serial_eq_of_identity (link.identity_readFrame now)
      have hread : manager.modifyLink serial (fun link => (link.readOnce chance).getD link) = read :=
        modifyLink_congr hnumbered hlink (by rw [honce, Option.getD_some])
      have hfound : read.link? serial = some (link.readFrame now) := by
        rw [link?_modifyLink manager serial serial hserial, if_pos rfl, hlink, Option.map_some]
      have hrest : manager.modifyLink serial (Link.readFrames now (fuel + 1)) =
          read.modifyLink serial (Link.readFrames now fuel) :=
        (modifyLink_modifyLink manager serial _ hserial).symm
      have hnumberedRead : read.Numbered :=
        (SameLinks.modifyLink manager serial fun link => link.identity_readFrame now).numbered
          hnumbered
      rw [hrest]
      rcases hloop with hrunning | ⟨exit, hended⟩
      · have hperform : manager.perform chance (.read serial) =
            some ⟨read, [.read serial], []⟩ := by
          simp only [perform, hlink, honce, hread, hrunning, Option.bind_eq_bind, Option.bind_some]
        obtain ⟨left, hleft, hlater⟩ := ih hnumberedRead hfound hrunning (hkept ▸ hstate)
        exact ⟨left, hleft, .step hnow (by simp) hperform hlater⟩
      · have hperform : manager.perform chance (.read serial) =
            some ⟨read, [.leave serial exit], [.exited serial exit]⟩ := by
          simp only [perform, hlink, honce, hread, hended, Option.bind_eq_bind, Option.bind_some]
        have hidle := Link.readFrame_of_ended hended now
        have hsame : read.modifyLink serial (Link.readFrames now fuel) = read :=
          modifyLink_eq_self hnumberedRead hfound (Link.readFrames_eq_self hidle _)
        have hsettled : read.settleLink serial = read.exitLink serial exit := by
          simp only [settleLink, hfound, hended, hkept, hstate, if_false]
        refine ⟨[], .inl rfl, .step hnow (by simp) hperform ?_⟩
        rw [hsame, hsettled]
        exact exitLink hnumberedRead hfound

/-- A read loop takes everything that has arrived. -/
theorem readLink {serial : Nat} {link : Link} (hnumbered : manager.Numbered)
    (hlink : manager.link? serial = some link) (hrunning : link.readLoop = .running)
    (hstate : link.state ≠ .terminated) :
    ∃ left, (left = [] ∨ left = [.read serial]) ∧
      Proceeds now manager [.read serial] (manager.readLink now serial) left := by
  have hread : manager.modifyLink serial (fun link => link.read now) =
      manager.modifyLink serial (Link.readFrames now (link.inbox.length + 1)) :=
    modifyLink_congr hnumbered hlink rfl
  rw [Manager.readLink, hread]
  exact readFrames hnumbered hlink hrunning hstate

/-- A new link gets its place, for which the link that had it is closed, or it is closed itself. -/
theorem register_eq (manager : Manager) (session : Session) (peer : NodeId) (nonce : Int64) :
    let link := manager.newLink now session peer nonce
    let added := manager.addLink link
    manager.register now session peer nonce =
      if added.accepts now link then
        match added.table.get? link.peer with
        | some displaced => (added.established link).closeLink true displaced
        | none => added.established link
      else (added.closeLink true link.serial).modifyLink link.serial Link.terminate := by
  intro link added
  unfold Manager.register
  dsimp only
  by_cases haccepts : added.accepts now link = true
  · have henter : added.enter now link =
        (.accepted (added.table.get? link.peer), added.established link) := if_pos haccepts
    rw [if_pos haccepts, henter]
    cases added.table.get? link.peer <;> rfl
  · have henter : added.enter now link = (.refused, added) := if_neg haccepts
    rw [if_neg haccepts, henter]

/-- A new link is registered. -/
theorem register {pending : List Action} (hwired : Wired manager pending) (session : Session)
    (peer : NodeId) (nonce : Int64) :
    ∃ left, (left = [] ∨ left = [.read manager.nextSerial]) ∧
      Proceeds now (manager.addLink (manager.newLink now session peer nonce))
        [.enter manager.nextSerial] (manager.register now session peer nonce) left := by
  let link := manager.newLink now session peer nonce
  let added := manager.addLink link
  have hadded : Wired added (pending ++ [.enter manager.nextSerial]) := hwired.addLink rfl rfl
  have hlink : added.link? manager.nextSerial = some link := by
    rw [link?_addLink (link?_nextSerial hwired.numbered)]
    exact if_pos rfl
  have henter : added.perform { now } (.enter manager.nextSerial) = _ := perform_enter_of_link hlink
  rw [register_eq]
  by_cases haccepts : added.accepts now link = true
  · rw [if_pos haccepts] at henter
    rw [if_pos haccepts]
    refine ⟨[.read manager.nextSerial], .inr rfl, .step rfl (by simp) henter ?_⟩
    cases hget : added.table.get? link.peer with
    | none => exact .refl _ _
    | some displaced =>
      have hestablished : SameLinks added (added.established link) :=
        .modifyLink added link.serial Link.identity_establish
      obtain ⟨old, hold, -⟩ := hadded.held hget
      obtain ⟨found, hfound, -⟩ := hestablished.exists_after hold
      exact close (hestablished.numbered hadded.numbered) hfound
  · rw [if_neg haccepts] at henter
    rw [if_neg haccepts]
    have hterminate : (added.closeLink true manager.nextSerial).perform { now }
        (.terminate manager.nextSerial) = some ⟨(added.closeLink true manager.nextSerial).modifyLink
          manager.nextSerial Link.terminate, [], []⟩ := rfl
    refine ⟨[], .inl rfl, .step rfl (by simp) henter ?_⟩
    refine (close hadded.numbered hlink).trans (.step rfl (by simp) hterminate ?_)
    exact .refl _ _

/-- The table lets go of a link whatever has become of it. -/
theorem release_of_identity {link found : Link} (hidentity : found.identity = link.identity) :
    manager.release found = manager.release link := by
  unfold release holds
  rw [Link.peer_eq_of_identity hidentity, Link.serial_eq_of_identity hidentity]

/-- A payload is sent on one link, which leaves the table and is closed if that fails. -/
theorem send {serial : Nat} {link : Link} (hnumbered : manager.Numbered)
    (hlink : manager.link? serial = some link) (payload : Payload) (coin writes : Nat → Bool)
    (delivered : Nat) :
    Proceeds now manager (.send payload serial :: rest)
      (sendToBy Deflate.deflate payload coin writes (manager, delivered) serial).1 rest := by
  let chance : Chance := { now, coin := coin serial, writes := writes serial }
  let after := (link.send manager.settings payload (coin serial) (writes serial)).2
  let sent := manager.modifyLink serial fun link =>
    (link.send manager.settings payload (coin serial) (writes serial)).2
  have hidentity : ∀ link : Link,
      (link.send manager.settings payload (coin serial) (writes serial)).2.identity =
        link.identity := fun link => link.identity_send ..
  have hsame : SameLinks manager sent := .modifyLink manager serial hidentity
  have hconst : manager.modifyLink serial (fun _ => after) = sent :=
    modifyLink_congr hnumbered hlink rfl
  have hfound : sent.link? serial = some after := by
    rw [link?_modifyLink manager serial serial
      fun link => Link.serial_eq_of_identity (hidentity link), if_pos rfl, hlink, Option.map_some]
  simp only [sendToBy, hlink]
  cases hdelivery :
      (link.sendBy Deflate.deflate manager.settings payload (coin serial) (writes serial)).1 with
  | delivered | dropped =>
    have hperform : manager.perform chance (.send payload serial) = some ⟨sent, [], []⟩ := by
      simp only [perform, Link.send, hlink, Option.bind_eq_bind, Option.bind_some, chance, hdelivery]
      rfl
    rw [← hconst] at hperform
    exact .step rfl (by simp) hperform (.refl _ _)
  | failed error =>
    have hperform : manager.perform chance (.send payload serial) =
        some ⟨sent, [.drop serial], [.failed serial]⟩ := by
      simp only [perform, Link.send, hlink, Option.bind_eq_bind, Option.bind_some, chance, hdelivery]
      rfl
    have hdrop : sent.perform { now } (.drop serial) =
        some ⟨sent.release link, [.close false serial], [.left serial]⟩ := by
      simp only [perform, hfound, Option.bind_eq_bind, Option.bind_some]
      rw [release_of_identity (hidentity link)]
    have hreleased : (sent.release link).link? serial = some after := by rw [link?_release, hfound]
    have hnumberedSent := (Continues.release sent link).links.numbered (hsame.numbered hnumbered)
    refine .step rfl (by simp) hperform (.step rfl (by simp) hdrop ?_)
    show Proceeds now _ _ ((manager.modifyLink serial fun _ => after).release link
      |>.closeLink false serial) rest
    rw [hconst]
    exact close hnumberedSent hreleased

/-- Nothing that a task does changes links in what they are. -/
theorem sameLinks (hproceeds : Proceeds now manager actions final left) :
    SameLinks manager final := by
  induction hproceeds with
  | refl manager actions => exact .refl manager
  | step _ _ hperform _ ih => exact (continues_perform hperform).links.trans ih

/-- A payload is sent on one link after the other. -/
theorem sendAll {serials : List Nat} (hnumbered : manager.Numbered)
    (hknown : ∀ serial ∈ serials, (manager.link? serial).isSome = true) (payload : Payload)
    (coin writes : Nat → Bool) (delivered : Nat) :
    Proceeds now manager (serials.map (Action.send payload) ++ rest)
      (serials.foldl (sendToBy Deflate.deflate payload coin writes) (manager, delivered)).1 rest := by
  induction serials generalizing manager delivered with
  | nil => exact .refl manager rest
  | cons serial others ih =>
    obtain ⟨link, hlink⟩ := Option.isSome_iff_exists.1 (hknown serial List.mem_cons_self)
    have hsend : Proceeds now manager
        (.send payload serial :: (others.map (Action.send payload) ++ rest)) _ _ :=
      send hnumbered hlink payload coin writes delivered
    have hsame := hsend.sameLinks
    refine hsend.trans (ih (hsame.numbered hnumbered) (fun other hother => ?_) _)
    exact Wired.isSome_of_sameLinks hsame (hknown other (List.mem_cons_of_mem _ hother))

/-- A stop empties the table and closes the links that were in it. -/
theorem drain {pending : List Action} (hwired : Wired manager pending) (session : Nat)
    (order : List Nat) :
    Proceeds now manager [.drain session]
      ((manager.drain order).2.closeAll (manager.visits order))
      [.finish session (manager.visits order)] := by
  have hdrain : manager.perform { now, order } (.drain session) = some ⟨(manager.drain order).2,
      (manager.visits order).map (Action.close true) ++ [.finish session (manager.visits order)],
      [.drained]⟩ := rfl
  refine .step rfl (by simp) hdrain ?_
  rw [List.append_nil]
  refine closeAll (show (manager.drain order).2.Numbered from hwired.numbered) fun serial hserial => ?_
  obtain ⟨link, hlink⟩ := hwired.exists_link (mem_visits_iff.1 hserial)
  have hfound : (manager.drain order).2.link? serial = some link := hlink
  simp [hfound]

end Proceeds

end Manager

/-! ## The operations of a manager -/

namespace BusyManager

variable {busy after : BusyManager}

/-- A new task does all that it can do when nothing interrupts it. -/
theorem exists_run_last {now : Nat} {final : Manager} {session : Option Nat}
    {actions left : List Action} (hproceeds : Manager.Proceeds now after.manager actions final left)
    (htasks : after.tasks = busy.tasks ++ [⟨session, actions⟩]) :
    ∃ (chances : List Chance) (last : BusyManager),
      after.run (chances.map (Event.work busy.tasks.length)) = some last ∧ last.manager = final := by
  have htask : after.tasks[busy.tasks.length]? = some ⟨session, actions⟩ := by
    rw [htasks, List.getElem?_concat_length]
  obtain ⟨chances, last, hrun, hlast, -⟩ := hproceeds.exists_run htask rfl
  exact ⟨chances, last, hrun, hlast⟩

/-- When nothing interrupts the task of a new connection, the connection is registered. -/
theorem exists_run_register {now number : Nat} {origin : Origin} {peer : NodeId} {nonce : Int64}
    (hsound : busy.Sound) (hstep : busy.step (.greet now number origin peer nonce) = some after) :
    ∃ (session : Session) (chances : List Chance) (last : BusyManager),
      busy.sessions[number]? = some session ∧
      after.run (chances.map (Event.work busy.tasks.length)) = some last ∧
      last.manager = busy.manager.register now session peer nonce := by
  obtain ⟨session, hsession, -, hafter, -⟩ := step_greet hstep
  have htasks : after.tasks = busy.tasks ++
      [⟨some session.number, [.enter busy.manager.nextSerial]⟩] := by rw [hafter]
  have hmanager : after.manager =
      busy.manager.addLink (busy.manager.newLink now session peer nonce) := by rw [hafter]
  obtain ⟨left, -, hproceeds⟩ := Manager.Proceeds.register hsound.wired session peer nonce
  rw [← hmanager] at hproceeds
  obtain ⟨chances, last, hrun, hlast⟩ := exists_run_last hproceeds htasks
  exact ⟨session, chances, last, hsession, hrun, hlast⟩

/-- When nothing interrupts a read loop, it takes everything that has arrived. -/
theorem exists_run_readLink {index serial : Nat} {task : Task} {link : Link} (hsound : busy.Sound)
    (htask : busy.tasks[index]? = some task) (hactions : task.actions = [.read serial])
    (hlink : busy.manager.link? serial = some link) (hrunning : link.readLoop = .running)
    (hstate : link.state ≠ .terminated) (now : Nat) :
    ∃ (chances : List Chance) (last : BusyManager),
      busy.run (chances.map (Event.work index)) = some last ∧
      last.manager = busy.manager.readLink now serial := by
  obtain ⟨left, -, hproceeds⟩ :=
    Manager.Proceeds.readLink hsound.wired.numbered hlink hrunning hstate
  obtain ⟨chances, last, hrun, hlast, -⟩ := hproceeds.exists_run htask hactions
  exact ⟨chances, last, hrun, hlast⟩

/-- When nothing interrupts the task of a broadcast, the payload is sent to every neighbour. -/
theorem exists_run_broadcast {payload : Payload} {order : List Nat} (hsound : busy.Sound)
    (hstep : busy.step (.broadcast payload order) = some after) (coin writes : Nat → Bool) :
    ∃ (chances : List Chance) (last : BusyManager),
      after.run (chances.map (Event.work busy.tasks.length)) = some last ∧
      last.manager = (busy.manager.broadcast payload order coin writes).1 := by
  obtain rfl := Option.some.inj hstep
  have hknown : ∀ serial ∈ busy.manager.visits order,
      (busy.manager.link? serial).isSome = true := by
    intro serial hserial
    obtain ⟨link, hlink⟩ := hsound.wired.exists_link (Manager.mem_visits_iff.1 hserial)
    simp [hlink]
  have hproceeds : Manager.Proceeds 0 busy.manager
      ((busy.manager.visits order).map (Action.send payload))
      (busy.manager.broadcast payload order coin writes).1 [] := by
    rw [← List.append_nil ((busy.manager.visits order).map (Action.send payload))]
    exact .sendAll hsound.wired.numbered hknown payload coin writes 0
  exact exists_run_last hproceeds rfl

/-- When nothing interrupts the task of a stop, the table is emptied and the links that were in it are
closed in any order; what is left waits for the tasks of the session. -/
theorem exists_run_stop (hsound : busy.Sound) (hstep : busy.step .stop = some after)
    (order : List Nat) :
    busy.manager.beginStop = some after.manager ∧
    ∃ (chances : List Chance) (last : BusyManager),
      after.run (chances.map (Event.work busy.tasks.length)) = some last ∧
      last.manager =
        (after.manager.drain order).2.closeAll (after.manager.drain order).1 := by
  have hwired := (hsound.step hstep).wired
  obtain ⟨session, hsession, rfl, -⟩ := step_stop hstep
  have hproceeds : Manager.Proceeds 0 _ _ _ _ := .drain hwired session.number order
  exact ⟨by simp [Manager.beginStop, hsession, Manager.halted], exists_run_last hproceeds rfl⟩

end BusyManager

end RegionGossip
