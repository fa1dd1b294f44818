import RegionGossip.Proofs.Manager.Wiring

/-!
# A link that is left alone

A link on which nothing was written and to which nothing was carried, and which nobody has closed,
either still asks for its place in the table or has it, with its read loop waiting for a first frame.
It stays so as long as no other link takes its place: nothing but its own read loop means it, and
the read loop has nothing to do.
-/

namespace RegionGossip

/-- Nothing has happened on a link, and it is not closed. -/
structure Link.Untouched (link : Link) : Prop where
  cancelled : link.cancelled = false
  writable : link.writable = true
  sent : link.sent = []
  inbox : link.inbox = []
  inboxEnded : link.inboxEnded = false

/-- As long as the connection does not break, the read loop of such a link has nothing to do. -/
theorem Link.Untouched.readOnce_eq_none {link : Link} {chance : Chance}
    (huntouched : link.Untouched) (hwhole : ∀ fault, chance.reading ≠ .breakdown fault) :
    link.readOnce chance = none := by
  have hwaiting : link.takeFrame chance.now = none := by
    rw [takeFrame, huntouched.inbox, huntouched.inboxEnded]
    rfl
  rw [readOnce]
  split
  · exact hwaiting
  · rw [huntouched.cancelled]
    rfl
  · rename_i fault _ hreading
    exact absurd hreading (hwhole fault)
  · rfl

namespace Manager

/-- A link is left alone: it asks for its place in the table, or has it and is read. -/
structure Kept (manager : Manager) (pending : List Action) (serial : Nat) : Prop where
  untouched : ∀ link, manager.link? serial = some link → link.Untouched
  placed : pending.filter (fun action => serial ∈ action.targets) = [.enter serial] ∨
    (pending.filter (fun action => serial ∈ action.targets) = [.read serial] ∧
      ∀ link, manager.link? serial = some link → link.state = .connected ∧
        manager.table.get? link.peer = some serial)

namespace Kept

variable {manager after : Manager} {pending : List Action} {serial : Nat}

/-- A link that is left alone is meant by no action but the one that asks for its place, as long as
that one is pending. -/
theorem placed_of_not_mem (hkept : Kept manager pending serial)
    (henter : Action.enter serial ∉ pending) {link : Link}
    (hlink : manager.link? serial = some link) :
    link.state = .connected ∧ manager.table.get? link.peer = some serial := by
  rcases hkept.placed with halone | ⟨-, hplaced⟩
  · have hmem : Action.enter serial ∈
        pending.filter (fun action => serial ∈ action.targets) := by simp [halone]
    exact absurd (List.mem_filter.1 hmem).1 henter
  · exact hplaced link hlink

/-- The action that gives a link its place. -/
theorem perform_enter {front back : List Action} {chance : Chance} {outcome : Outcome}
    (hwired : Wired manager (front ++ .enter serial :: back))
    (hkept : Kept manager (front ++ .enter serial :: back) serial)
    (haccepts : ∀ link, manager.link? serial = some link →
      manager.accepts chance.now link = true)
    (hperform : manager.perform chance (.enter serial) = some outcome) :
    Kept outcome.manager (front ++ (outcome.next ++ back)) serial := by
  have hfresh : Fresh manager (front ++ .enter serial :: back) serial := hwired.fresh (by simp)
  obtain ⟨-, hfront, hback⟩ := eq_of_filter_singleton hfresh.alone (by simp [Action.targets])
  obtain ⟨link, hlink, ⟨-, rfl⟩ | ⟨hrefused, -⟩⟩ := Manager.perform_enter hperform
  · obtain rfl := serial_of_link? hlink
    have hfound : ∀ found, (manager.established link).link? link.serial = some found →
        found = link.establish := by
      intro found hfound
      obtain ⟨old, hold, rfl⟩ :=
        exists_of_link?_modifyLink (show (manager.modifyLink link.serial Link.establish).link?
          link.serial = some found from hfound) fun _ => rfl
      rw [Option.some.inj (hold.symm.trans hlink)]
    refine ⟨fun found hafter => ?_, .inr ⟨?_, fun found hafter => ?_⟩⟩
    · obtain ⟨hcancelled, hwritable, hsent, hinbox, hended⟩ := hkept.untouched link hlink
      rw [hfound found hafter]
      exact ⟨hcancelled, hwritable, hsent, hinbox, hended⟩
    · have hclose : ((manager.table.get? link.peer).map (Action.close true)).toList.filter
          (fun action => link.serial ∈ action.targets) = [] := by
        refine List.filter_eq_nil_iff.2 fun action haction hmem => ?_
        obtain ⟨displaced, hdisplaced, rfl⟩ : ∃ displaced,
            manager.table.get? link.peer = some displaced ∧
              Action.close true displaced = action := by simpa using haction
        obtain rfl : link.serial = displaced := by simpa [Action.targets] using hmem
        exact hfresh.absent _ hdisplaced
      rw [List.filter_append, List.filter_append, List.filter_append, hfront, hback, hclose]
      simp [Action.targets]
    · rw [hfound found hafter]
      refine ⟨rfl, ?_⟩
      show (manager.table.insert link.peer link.serial).get? link.peer = _
      rw [SortedMap.get?_insert, if_pos Std.ReflCmp.compare_self]
  · rw [haccepts link hlink] at hrefused
    exact absurd hrefused (by simp)

/-- An action that does not mean a link and does not take its place leaves it alone. -/
theorem perform_of_not_mem {front back : List Action} {action : Action} {chance : Chance}
    {outcome : Outcome} (hwired : Wired manager (front ++ action :: back))
    (hkept : Kept manager (front ++ action :: back) serial) (htarget : serial ∉ action.targets)
    (hspared : ¬ manager.Evicts chance.now action serial)
    (hperform : manager.perform chance action = some outcome) :
    Kept outcome.manager (front ++ (outcome.next ++ back)) serial := by
  have hlinks := link?_perform hperform htarget
  have hnext : outcome.next.filter (fun action => serial ∈ action.targets) = [] := by
    refine List.filter_eq_nil_iff.2 fun next hnext hmem => ?_
    rcases (follows_perform hperform hnext).2 serial (by simpa using hmem) with hown | hevicts
    · exact htarget hown
    · exact hspared hevicts
  have hpending : (front ++ (outcome.next ++ back)).filter
      (fun action => serial ∈ action.targets) =
        (front ++ action :: back).filter (fun action => serial ∈ action.targets) := by
    rw [List.filter_append, List.filter_append, hnext, List.nil_append, List.filter_append,
      List.filter_cons_of_neg (by simpa using htarget)]
  refine ⟨fun link hlink => hkept.untouched link (hlinks ▸ hlink), ?_⟩
  rw [hpending]
  refine hkept.placed.imp_right fun ⟨halone, hplaced⟩ => ⟨halone, fun link hlink => ?_⟩
  obtain ⟨hstate, hget⟩ := hplaced link (hlinks ▸ hlink)
  refine ⟨hstate, ?_⟩
  rcases table_perform hperform with ⟨htable, -⟩ |
    ⟨entered, other, rfl, hother, haccepts, htable, -⟩ | ⟨gone, other, hleaves, hother, hmanager, -⟩ |
    ⟨session, rfl, -, -⟩
  · rw [htable, hget]
  · rw [htable, SortedMap.get?_insert, if_neg, hget]
    intro hsame
    rw [manager.table.get?_congr hsame] at hget
    exact hspared (.inl ⟨entered, other, rfl, hother, haccepts, hget⟩)
  · have hne : serial ≠ gone := by
      rintro rfl
      rcases hleaves with ⟨exit, rfl⟩ | rfl <;> exact htarget (by simp [Action.targets])
    rw [hmanager, hwired.get?_release hother, hget, Option.filter_some_pos (by simpa using hne)]
  · exact absurd (.inr ⟨session, link.peer, rfl, hget⟩) hspared

/-- A link is left alone by every action that does not take its place, as long as it gets its own
place when it asks for it and its connection does not break. -/
theorem perform {front back : List Action} {action : Action} {chance : Chance} {outcome : Outcome}
    (hwired : Wired manager (front ++ action :: back))
    (hkept : Kept manager (front ++ action :: back) serial)
    (hspared : ¬ manager.Evicts chance.now action serial)
    (haccepts : action = .enter serial → ∀ link, manager.link? serial = some link →
      manager.accepts chance.now link = true)
    (hwhole : action = .read serial → ∀ fault, chance.reading ≠ .breakdown fault)
    (hperform : manager.perform chance action = some outcome) :
    Kept outcome.manager (front ++ (outcome.next ++ back)) serial := by
  by_cases htarget : serial ∈ action.targets
  · rcases hkept.placed with halone | ⟨halone, -⟩
    · obtain ⟨rfl, -, -⟩ := eq_of_filter_singleton halone htarget
      exact perform_enter hwired hkept (haccepts rfl) hperform
    · -- the read loop has nothing to do, so it does not get its turn
      obtain ⟨rfl, -, -⟩ := eq_of_filter_singleton halone htarget
      obtain ⟨link, found, hlink, hread, -⟩ := perform_read hperform
      rw [(hkept.untouched link hlink).readOnce_eq_none (hwhole rfl)] at hread
      exact absurd hread (by simp)
  · exact perform_of_not_mem hwired hkept htarget hspared hperform

/-- A link is left alone by an event that changes neither the link nor the table and adds no action
that means it. -/
theorem extend {more : List Action} (hkept : Kept manager pending serial)
    (hlink : after.link? serial = manager.link? serial) (htable : after.table = manager.table)
    (hmore : ∀ action ∈ more, serial ∉ action.targets) : Kept after (pending ++ more) serial := by
  have hnone : more.filter (fun action => serial ∈ action.targets) = [] :=
    List.filter_eq_nil_iff.2 fun action haction hmem => hmore action haction (by simpa using hmem)
  refine ⟨fun link hfound => hkept.untouched link (hlink ▸ hfound), ?_⟩
  rw [List.filter_append, hnone, List.append_nil, htable, hlink]
  exact hkept.placed

/-- A new link is left alone. -/
theorem addLink (hwired : Wired manager pending) {link : Link}
    (hserial : link.serial = manager.nextSerial) (huntouched : link.Untouched) :
    Kept (manager.addLink link) (pending ++ [.enter manager.nextSerial]) manager.nextSerial := by
  have hunused := link?_nextSerial hwired.numbered
  have hnone : pending.filter (fun action => manager.nextSerial ∈ action.targets) = [] := by
    refine List.filter_eq_nil_iff.2 fun action haction hmem => ?_
    have hknown := hwired.known action haction manager.nextSerial (by simpa using hmem)
    simp [hunused] at hknown
  refine ⟨fun found hfound => ?_, .inl ?_⟩
  · rw [link?_addLink (hserial ▸ hunused), if_pos hserial.symm] at hfound
    rwa [← Option.some.inj hfound]
  · rw [List.filter_append, hnone]
    simp [Action.targets]

end Kept

end Manager

end RegionGossip
