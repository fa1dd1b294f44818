import RegionGossip.Proofs.Manager.Standing

/-!
# Who is remembered

The history of a manager has nobody but neighbours to whom a link was accepted at some time. In the
other direction, whoever was met has a link that is not at its end, or is in the history, or is about
to be looked for: a link comes to its end in a few ways only, and in each the neighbour is remembered,
or looked for in the table, where another link of it stands.
-/

namespace RegionGossip

namespace Manager

variable {manager after : Manager} {pending front back : List Action} {trace : List Mark}
  {chance : Chance} {action : Action} {outcome : Outcome}

/-! ## What an action adds to the history -/

/-- Nothing is taken out of the history, and whoever is new in it is one of those named, with a link
that has ended. -/
structure Recalls (before after : Manager) (named : NodeId → Prop) : Prop where
  new : ∀ {peer state}, after.history.get? peer = some state →
    before.history.get? peer = some state ∨ (state = .terminated ∧ named peer)
  kept : ∀ {peer}, (before.history.get? peer).isSome = true →
    (after.history.get? peer).isSome = true

namespace Recalls

variable {named : NodeId → Prop}

/-- The history stays as it is. -/
theorem of_eq (hhistory : after.history = manager.history) : Recalls manager after named :=
  ⟨fun hget => .inl (hhistory ▸ hget), fun hsome => by rwa [hhistory]⟩

/-- A neighbour is remembered. -/
theorem remember (manager : Manager) {other : NodeId}
    (hnamed : ∀ peer, (peer == other) = true → named peer) :
    Recalls manager (manager.remember other) named := by
  have hget (peer : NodeId) : (manager.remember other).history.get? peer =
      if compare peer other = .eq then some .terminated else manager.history.get? peer :=
    SortedMap.get?_insert ..
  refine ⟨fun {peer state} hstate => ?_, fun {peer} hsome => ?_⟩
  · rw [hget] at hstate
    split at hstate
    · rename_i hpeer
      exact .inr ⟨(Option.some.inj hstate).symm, hnamed peer (Ident.compare_eq_iff_beq.1 hpeer)⟩
    · exact .inl hstate
  · rw [hget]
    split
    · rfl
    · exact hsome

/-- One change after the other. -/
theorem trans {middle : Manager} (hfirst : Recalls manager middle named)
    (hsecond : Recalls middle after named) : Recalls manager after named := by
  refine ⟨fun {peer state} hget => ?_, fun {peer} hsome => hsecond.kept (hfirst.kept hsome)⟩
  rcases hsecond.new hget with hmiddle | hnew
  · exact hfirst.new hmiddle
  · exact .inr hnew

/-- Other neighbours are named with the same right. -/
theorem mono {more : NodeId → Prop} (hrecalls : Recalls manager after named)
    (hmore : ∀ peer, named peer → more peer) : Recalls manager after more :=
  ⟨fun hget => (hrecalls.new hget).imp_right (And.imp_right (hmore _)), hrecalls.kept⟩

end Recalls

/-- Whoever was remembered is in the history. -/
theorem isSome_history_remember (manager : Manager) (peer : NodeId) :
    ((manager.remember peer).history.get? peer).isSome = true := by
  rw [remember, SortedMap.get?_insert, if_pos Std.ReflCmp.compare_self]
  rfl

/-- Letting go of a link has nothing to do with the history. -/
theorem history_release (manager : Manager) (link : Link) :
    (manager.release link).history = manager.history := by
  rw [release]
  split <;> rfl

/-- The neighbour of one of some links. -/
def Linked (manager : Manager) (serials : List Nat) (peer : NodeId) : Prop :=
  ∃ serial ∈ serials, ∃ link, manager.link? serial = some link ∧ (peer == link.peer) = true

/-- The neighbours of links are what they were, as long as the links are. -/
theorem Linked.of_sameLinks (hsame : SameLinks manager after) {serials : List Nat} {peer : NodeId}
    (hlinked : Linked after serials peer) : Linked manager serials peer := by
  obtain ⟨serial, hmem, link, hlink, hpeer⟩ := hlinked
  obtain ⟨old, hold, hidentity⟩ := hsame.exists_before hlink
  exact ⟨serial, hmem, old, hold, by rwa [Link.peer_eq_of_identity hidentity]⟩

/-- A stop remembers the neighbour of a link. -/
theorem recalls_finishLink (manager : Manager) {serials : List Nat} {serial : Nat}
    (hmem : serial ∈ serials) :
    Recalls manager (manager.finishLink serial) (Linked manager serials) := by
  rw [finishLink]
  split
  · exact .of_eq rfl
  · rename_i link hlink
    have hterminated : Recalls manager (manager.modifyLink serial Link.terminate)
      (Linked manager serials) := .of_eq rfl
    exact hterminated.trans (.remember _ fun peer hpeer => ⟨serial, hmem, link, hlink, hpeer⟩)

/-- A stop remembers the neighbours of the links that it closes. -/
theorem recalls_finishStop (manager : Manager) (serials : List Nat) :
    Recalls manager (manager.finishStop serials) (Linked manager serials) := by
  induction serials generalizing manager with
  | nil => exact .of_eq rfl
  | cons serial rest ih =>
    refine (recalls_finishLink manager List.mem_cons_self).trans
      ((ih (manager.finishLink serial)).mono fun peer hlinked => ?_)
    obtain ⟨other, hmem, hlink⟩ := hlinked.of_sameLinks (Continues.finishLink manager serial).links
    exact ⟨other, List.mem_cons_of_mem _ hmem, hlink⟩

/-- A stop forgets the neighbour of none of the links that it closes. -/
theorem isSome_history_finishStop {serials : List Nat} {serial : Nat} (hmem : serial ∈ serials)
    {link : Link} (hlink : manager.link? serial = some link) :
    ((manager.finishStop serials).history.get? link.peer).isSome = true := by
  induction serials generalizing manager link with
  | nil => exact absurd hmem List.not_mem_nil
  | cons first rest ih =>
    by_cases hfirst : serial = first
    · subst hfirst
      have hfinish : ((manager.finishLink serial).history.get? link.peer).isSome = true := by
        rw [finishLink, hlink]
        exact isSome_history_remember ..
      exact (recalls_finishStop (manager.finishLink serial) rest).kept hfinish
    · obtain ⟨found, hfound, hidentity⟩ :=
        (Continues.finishLink manager first).links.exists_after hlink
      rw [← Link.peer_eq_of_identity hidentity]
      exact ih (List.mem_of_ne_of_mem hfirst hmem) hfound

/-- Whom an action may remember. -/
def Recalled (manager : Manager) (action : Action) (peer : NodeId) : Prop :=
  (∃ other, action = .retain other ∧ (peer == other) = true) ∨ Linked manager action.admits peer

/-- What an action adds to the history. -/
theorem recalls_perform (hperform : manager.perform chance action = some outcome) :
    Recalls manager outcome.manager (manager.Recalled action) := by
  cases action with
  | enter entered =>
    obtain ⟨link, -, ⟨-, rfl⟩ | ⟨-, rfl⟩⟩ := perform_enter hperform <;> exact .of_eq rfl
  | close notify closed =>
    obtain ⟨link, -, ⟨-, rfl⟩ | ⟨-, rfl⟩⟩ := perform_close hperform <;> exact .of_eq rfl
  | shut | terminate | drain =>
    obtain rfl := Option.some.inj hperform
    exact .of_eq rfl
  | read serial =>
    obtain ⟨link, read, -, -, hmanager, -⟩ := perform_read hperform
    rw [hmanager]
    exact .of_eq rfl
  | leave gone exit =>
    obtain ⟨link, -, rfl⟩ := perform_leave hperform
    exact .of_eq (history_release ..)
  | bury gone released =>
    obtain ⟨link, hlink, ⟨-, rfl⟩ | ⟨-, rfl⟩⟩ := perform_bury hperform
    · have hterminated : Recalls manager (manager.modifyLink gone Link.terminate)
        (manager.Recalled (.bury gone released)) := .of_eq rfl
      exact hterminated.trans (.remember _ fun peer hpeer =>
        .inr ⟨gone, List.mem_cons_self, link, hlink, hpeer⟩)
    · exact .of_eq rfl
  | retain other =>
    obtain ⟨-, rfl⟩ | ⟨-, rfl⟩ := perform_retain hperform
    · exact .of_eq rfl
    · exact .remember _ fun peer hpeer => .inl ⟨other, rfl, hpeer⟩
  | send payload serial =>
    obtain ⟨link, -, hmanager, -⟩ := perform_send hperform
    rw [hmanager]
    exact .of_eq rfl
  | drop gone =>
    obtain ⟨link, -, rfl⟩ := perform_drop hperform
    exact .of_eq (history_release ..)
  | finish session serials =>
    obtain rfl := Option.some.inj hperform
    exact (recalls_finishStop manager serials).mono fun peer => .inr

/-- The neighbour of a link that was in use and is marked as terminated is remembered or looked
for. -/
theorem recalled_of_ends {serial : Nat} {link : Link}
    (hperform : manager.perform chance action = some outcome) (hends : serial ∈ action.ends)
    (hadmitted : action ≠ .terminate serial) (hlink : manager.link? serial = some link) :
    (outcome.manager.history.get? link.peer).isSome = true ∨ .retain link.peer ∈ outcome.next := by
  cases action with
  | terminate refused =>
    obtain rfl := List.mem_singleton.1 hends
    exact absurd rfl hadmitted
  | bury gone released =>
    obtain rfl := List.mem_singleton.1 hends
    obtain ⟨found, hfound, ⟨-, rfl⟩ | ⟨-, rfl⟩⟩ := perform_bury hperform
    · obtain rfl : link = found := Option.some.inj (hlink.symm.trans hfound)
      exact .inl (isSome_history_remember ..)
    · obtain rfl : link = found := Option.some.inj (hlink.symm.trans hfound)
      exact .inr List.mem_cons_self
  | finish session serials =>
    obtain rfl := Option.some.inj hperform
    exact .inl (isSome_history_finishStop hends hlink)
  | _ => exact absurd hends List.not_mem_nil

/-! ## Everybody who was met -/

/-- A link to a neighbour was accepted and is not at its end. -/
def Lives (manager : Manager) (trace : List Mark) (peer : NodeId) : Prop :=
  ∃ other serial link, .accepted other serial ∈ trace ∧ (peer == other) = true ∧
    manager.link? serial = some link ∧ link.state ≠ .terminated

/-- What a manager has to do with its history. -/
structure Remembers (manager : Manager) (pending : List Action) (trace : List Mark) : Prop where
  terminated : ∀ {peer state}, manager.history.get? peer = some state → state = .terminated
  met : ∀ {peer}, (manager.history.get? peer).isSome = true → Met trace peer
  covered : ∀ {peer}, Met trace peer → Lives manager trace peer ∨
    (manager.history.get? peer).isSome = true ∨
    ∃ other, .retain other ∈ pending ∧ (peer == other) = true

namespace Remembers

/-- Whoever equals a neighbour that was met was met. -/
theorem met_of_beq {peer other : NodeId} (hmet : Met trace other) (hpeer : (peer == other) = true) :
    Met trace peer := by
  obtain ⟨named, serial, hmem, hother⟩ := hmet
  exact ⟨named, serial, hmem, BEq.trans hpeer hother⟩

/-- A link that lives goes on living, or its neighbour is remembered or looked for. -/
theorem covered_of_lives (hjudged : Judged manager (front ++ action :: back) trace)
    (hperform : manager.perform chance action = some outcome) {peer : NodeId}
    (hlives : Lives manager trace peer) :
    Lives outcome.manager (outcome.marks ++ trace) peer ∨
      (outcome.manager.history.get? peer).isSome = true ∨
      ∃ other, .retain other ∈ outcome.next ∧ (peer == other) = true := by
  obtain ⟨other, serial, link, haccepted, hpeer, hlink, hstate⟩ := hlives
  obtain ⟨next, hnext, hidentity⟩ := (continues_perform hperform).links.exists_after hlink
  by_cases hlive : next.state = .terminated
  · have hends : serial ∈ action.ends := by
      cases change_perform hperform hlink hnext with
      | same => exact absurd hlive hstate
      | terminate hends => exact hends
      | establish | cancel => exact absurd hlive nofun
      | shut => exact absurd hlive hstate
      | read hread => exact absurd ((Link.state_readOnce hread).symm.trans hlive) hstate
      | @send payload =>
        rcases link.state_send manager.settings payload chance.coin chance.writes with hsame |
          ⟨hterminating, -⟩
        · exact absurd (hsame.symm.trans hlive) hstate
        · exact absurd (hterminating.symm.trans hlive) nofun
    have hadmitted : action ≠ .terminate serial := by
      rintro rfl
      have hpending : Action.terminate serial ∈ front ++ .terminate serial :: back := by simp
      obtain ⟨refused, hrefused⟩ := hjudged.refused hpending
      exact hjudged.unrefused ⟨other, haccepted⟩ refused hrefused
    obtain rfl : link.peer = other := hjudged.named haccepted hlink
    rcases recalled_of_ends hperform hends hadmitted hlink with hsome | hretain
    · rw [outcome.manager.history.get?_congr (Ident.compare_eq_iff_beq.2 hpeer)]
      exact .inr (.inl hsome)
    · exact .inr (.inr ⟨link.peer, hretain, hpeer⟩)
  · exact .inl ⟨other, serial, next, List.mem_append_right _ haccepted, hpeer, hnext, hlive⟩

/-- A neighbour that is looked for lives or is remembered. -/
theorem covered_of_retain {other peer : NodeId}
    (hwired : Wired manager (front ++ .retain other :: back)) (hrecorded : Recorded manager trace)
    (hstanding : Standing manager (front ++ .retain other :: back))
    (hperform : manager.perform chance (.retain other) = some outcome)
    (hpeer : (peer == other) = true) :
    Lives outcome.manager (outcome.marks ++ trace) peer ∨
      (outcome.manager.history.get? peer).isSome = true := by
  obtain ⟨hcontains, rfl⟩ | ⟨-, rfl⟩ := perform_retain hperform
  · rw [SortedMap.contains_eq_isSome] at hcontains
    obtain ⟨serial, hget⟩ := Option.isSome_iff_exists.1 hcontains
    obtain ⟨link, hlink, -⟩ := hwired.held hget
    have hlive : link.state ≠ .terminated := by
      rcases hstanding.connected hget hlink with hconnected | ⟨hlive, -⟩
      · rw [hconnected]
        exact nofun
      · exact hlive
    rw [hrecorded.table] at hget
    obtain ⟨newer, named, older, rfl, hnamed, -⟩ := exists_accepted_of_holder hget
    exact .inl ⟨named, serial, link, by simp, BEq.trans hpeer hnamed, hlink, hlive⟩
  · rw [SortedMap.get?_congr _ (Ident.compare_eq_iff_beq.2 hpeer)]
    exact .inr (isSome_history_remember ..)

/-- An action forgets nobody. -/
theorem perform (hwired : Wired manager (front ++ action :: back))
    (hrecorded : Recorded manager trace) (hjudged : Judged manager (front ++ action :: back) trace)
    (hstanding : Standing manager (front ++ action :: back))
    (hremembers : Remembers manager (front ++ action :: back) trace)
    (hperform : manager.perform chance action = some outcome) :
    Remembers outcome.manager (front ++ (outcome.next ++ back)) (outcome.marks ++ trace) := by
  have hrecalls := recalls_perform hperform
  have haction : action ∈ front ++ action :: back := by simp
  refine ⟨fun {peer state} hget => ?_, fun {peer} hsome => ?_, fun {peer} hmet => ?_⟩
  · exact (hrecalls.new hget).elim hremembers.terminated And.left
  · obtain ⟨state, hget⟩ := Option.isSome_iff_exists.1 hsome
    refine Judged.met_append ?_
    rcases hrecalls.new hget with hbefore | ⟨-, ⟨other, rfl, hpeer⟩ |
      ⟨serial, hmem, link, hlink, hpeer⟩⟩
    · exact hremembers.met (by rw [hbefore]; rfl)
    · exact met_of_beq (hjudged.met haction) hpeer
    · exact met_of_beq (hjudged.met_of_accepted (hjudged.admitted action haction serial hmem) hlink)
        hpeer
  · obtain ⟨named, entered, haccepted, hpeer⟩ := hmet
    rcases List.mem_append.1 haccepted with hnew | hold
    · obtain rfl := ((marks_perform hperform).2 _ hnew).2 entered rfl
      obtain ⟨link, hlink, ⟨-, rfl⟩ | ⟨-, rfl⟩⟩ := perform_enter hperform
      · obtain rfl := serial_of_link? hlink
        exact .inl ⟨named, link.serial, link.establish, haccepted, hpeer,
          link?_established hlink, nofun⟩
      · exact absurd (List.mem_singleton.1 hnew) nofun
    · rcases hremembers.covered ⟨named, entered, hold, hpeer⟩ with hlives | hsome |
        ⟨other, hretain, hother⟩
      · rcases covered_of_lives hjudged hperform hlives with hlives | hsome | ⟨other, hnext, hother⟩
        · exact .inl hlives
        · exact .inr (.inl hsome)
        · exact .inr (.inr ⟨other, mem_pending_of_next hnext, hother⟩)
      · exact .inr (.inl (hrecalls.kept hsome))
      · by_cases hdone : Action.retain other = action
        · subst hdone
          exact (covered_of_retain hwired hrecorded hstanding hperform hother).imp_right .inl
        · exact .inr (.inr ⟨other, mem_pending_of_ne hretain hdone, hother⟩)

end Remembers

end Manager

namespace BusyManager

open Manager

variable {busy after : BusyManager}

/-- What happens outside the tasks makes nobody be forgotten. -/
theorem remembers_outside {more : List Action} {marks : List Mark}
    (hremembers : busy.manager.Remembers busy.pending busy.trace)
    (houtside : Outside busy after more marks) :
    after.manager.Remembers after.pending after.trace := by
  refine ⟨fun {peer state} hget => ?_, fun {peer} hsome => ?_, fun {peer} hmet => ?_⟩
  · rw [houtside.history] at hget
    exact hremembers.terminated hget
  · rw [houtside.history] at hsome
    obtain ⟨other, serial, hmem, hpeer⟩ := hremembers.met hsome
    exact ⟨other, serial, houtside.mem_trace_of_before hmem, hpeer⟩
  · rw [houtside.history]
    obtain ⟨other, serial, hmem, hpeer⟩ := hmet
    rcases hremembers.covered ⟨other, serial, houtside.mem_trace rfl hmem, hpeer⟩ with
      ⟨named, entered, link, haccepted, hnamed, hlink, hstate⟩ | hsome | ⟨named, hretain, hnamed⟩
    · obtain ⟨next, hnext, hpassed⟩ := houtside.kept hlink
      exact .inl ⟨named, entered, next, houtside.mem_trace_of_before haccepted, hnamed, hnext,
        by rwa [hpassed.state]⟩
    · exact .inr (.inl hsome)
    · exact .inr (.inr ⟨named, houtside.mem_pending_of_before hretain, hnamed⟩)

/-- Nobody was met before a manager was started. -/
theorem remembers_idle (settings : Settings) (timing : Timing) :
    (idle settings timing).manager.Remembers (idle settings timing).pending
      (idle settings timing).trace where
  terminated hget := absurd hget nofun
  met hsome := absurd hsome nofun
  covered hmet := by
    obtain ⟨other, serial, hmem, -⟩ := hmet
    exact absurd hmem List.not_mem_nil

end BusyManager

end RegionGossip
