import RegionGossip.Proofs.Manager.Steps

/-!
# Tasks and the table mean links that exist

Whatever is pending means links that were made, the table holds each link under its own neighbour,
and a link that still asks for its place in the table is in nobody else's hands: no other action
means it, and the table does not hold it.
-/

namespace RegionGossip

namespace Manager

/-- A link that still asks for its place in the table. -/
structure Fresh (manager : Manager) (pending : List Action) (serial : Nat) : Prop where
  alone : pending.filter (fun action => serial ∈ action.targets) = [.enter serial]
  handshaking : ∀ link, manager.link? serial = some link → link.state = .handshaking
  absent : ∀ peer, manager.table.get? peer ≠ some serial

/-- Pending actions and the table mean links that exist. -/
structure Wired (manager : Manager) (pending : List Action) : Prop where
  numbered : manager.Numbered
  known : ∀ action ∈ pending, ∀ target ∈ action.targets, (manager.link? target).isSome = true
  held : ∀ {peer serial}, manager.table.get? peer = some serial →
    ∃ link, manager.link? serial = some link ∧ compare peer link.peer = .eq
  fresh : ∀ {serial}, Action.enter serial ∈ pending → Fresh manager pending serial

/-- If exactly one of several actions means a link, and one is given that does, no other one does. -/
theorem eq_of_filter_singleton {front back : List Action} {action sole : Action} {serial : Nat}
    (hsole : (front ++ action :: back).filter (fun action => serial ∈ action.targets) = [sole])
    (htarget : serial ∈ action.targets) :
    action = sole ∧ front.filter (fun action => serial ∈ action.targets) = [] ∧
      back.filter (fun action => serial ∈ action.targets) = [] := by
  rw [List.filter_append, List.filter_cons_of_pos (by simpa using htarget)] at hsole
  have hlength := congrArg List.length hsole
  rw [List.length_append, List.length_cons, List.length_singleton] at hlength
  have hfront : front.filter (fun action => serial ∈ action.targets) = [] :=
    List.length_eq_zero_iff.1 (by omega)
  have hback : back.filter (fun action => serial ∈ action.targets) = [] :=
    List.length_eq_zero_iff.1 (by omega)
  rw [hfront, hback, List.nil_append] at hsole
  exact ⟨(List.cons.inj hsole).1, hfront, hback⟩

/-- Of several actions only one means a link, so no other one does. -/
theorem not_mem_targets_of_alone {front back : List Action} {action : Action} {serial : Nat}
    (halone : (front ++ action :: back).filter (fun action => serial ∈ action.targets) =
      [.enter serial])
    (hmem : Action.enter serial ∈ front ++ back) : serial ∉ action.targets := by
  intro htarget
  obtain ⟨-, hfront, hback⟩ := eq_of_filter_singleton halone htarget
  have hfound : Action.enter serial ∈
      (front ++ back).filter fun action => serial ∈ action.targets :=
    List.mem_filter.2 ⟨hmem, by simp [Action.targets]⟩
  rw [List.filter_append, hfront, hback] at hfound
  exact List.not_mem_nil hfound

namespace Wired

variable {manager after : Manager} {pending : List Action}

/-- A link that is held for a neighbour is a link to this neighbour. -/
theorem compare_peer (hwired : Wired manager pending) {peer : NodeId} {serial : Nat} {link : Link}
    (hget : manager.table.get? peer = some serial) (hlink : manager.link? serial = some link) :
    compare peer link.peer = .eq := by
  obtain ⟨found, hfound, hpeer⟩ := hwired.held hget
  obtain rfl : link = found := Option.some.inj (hlink.symm.trans hfound)
  exact hpeer

/-- Neighbours with one link are one neighbour. -/
theorem compare_of_get? (hwired : Wired manager pending) {left right : NodeId} {serial : Nat}
    (hleft : manager.table.get? left = some serial)
    (hright : manager.table.get? right = some serial) : compare left right = .eq := by
  obtain ⟨link, hlink, hpeer⟩ := hwired.held hleft
  rw [Std.TransCmp.congr_left hpeer]
  exact Std.OrientedCmp.eq_symm (hwired.compare_peer hright hlink)

/-- The table holds links that were made. -/
theorem exists_link (hwired : Wired manager pending) {serial : Nat}
    (hmem : serial ∈ manager.table.values) : ∃ link, manager.link? serial = some link := by
  obtain ⟨peer, hget⟩ := manager.table.mem_values_iff.1 hmem
  obtain ⟨link, hlink, -⟩ := hwired.held hget
  exact ⟨link, hlink⟩

/-- Letting go of a link takes its serial out of the table and nothing else. -/
theorem get?_release (hwired : Wired manager pending) {serial : Nat} {link : Link}
    (hlink : manager.link? serial = some link) (peer : NodeId) :
    (manager.release link).table.get? peer =
      (manager.table.get? peer).filter fun held => held != serial := by
  obtain rfl := serial_of_link? hlink
  have hpeer : ∀ {other : NodeId}, manager.table.get? other = some link.serial →
      compare other link.peer = .eq := fun hget => hwired.compare_peer hget hlink
  rw [release, holds]
  by_cases hholds : manager.table.get? link.peer = some link.serial
  · rw [if_pos (by simp [hholds])]
    show (manager.table.erase link.peer).get? peer = _
    rw [SortedMap.get?_erase]
    by_cases hsame : compare peer link.peer = .eq
    · rw [if_pos hsame, manager.table.get?_congr hsame, hholds, Option.filter_some_neg (by simp)]
    · rw [if_neg hsame]
      cases hget : manager.table.get? peer with
      | none => rfl
      | some held =>
        have hne : held ≠ link.serial := fun heq => hsame (hpeer (heq ▸ hget))
        rw [Option.filter_some_pos (by simpa using hne)]
  · rw [if_neg (by simpa using hholds)]
    cases hget : manager.table.get? peer with
    | none => rfl
    | some held =>
      have hne : held ≠ link.serial := by
        rintro rfl
        exact hholds ((manager.table.get?_congr (hpeer hget)).symm.trans hget)
      rw [Option.filter_some_pos (by simpa using hne)]

/-- After an action the table holds what it held before, or the link that was given its place. -/
theorem get?_perform (hwired : Wired manager pending) {chance : Chance} {action : Action}
    {outcome : Outcome} (hperform : manager.perform chance action = some outcome) {peer : NodeId}
    {serial : Nat} (hget : outcome.manager.table.get? peer = some serial) :
    manager.table.get? peer = some serial ∨
      (action = .enter serial ∧ ∃ link, manager.link? serial = some link ∧
        manager.accepts chance.now link = true ∧ compare peer link.peer = .eq) := by
  rcases table_perform hperform with ⟨htable, -⟩ | ⟨entered, link, rfl, hlink, haccepts, htable, -⟩ |
    ⟨gone, link, -, hlink, hmanager, -⟩ | ⟨session, -, htable, -⟩
  · exact .inl (htable ▸ hget)
  · rw [htable, SortedMap.get?_insert] at hget
    split at hget
    · rename_i hsame
      obtain rfl := Option.some.inj hget
      exact .inr ⟨rfl, link, hlink, haccepts, hsame⟩
    · exact .inl hget
  · rw [hmanager, hwired.get?_release hlink] at hget
    exact .inl (Option.eq_some_of_filter_eq_some hget)
  · rw [htable] at hget
    exact absurd hget (by simp)

/-- Links that are what they were are known as before. -/
theorem isSome_of_sameLinks {before after : Manager} (hsame : SameLinks before after)
    {serial : Nat} (hknown : (before.link? serial).isSome = true) :
    (after.link? serial).isSome = true := by
  obtain ⟨link, hlink⟩ := Option.isSome_iff_exists.1 hknown
  obtain ⟨found, hfound, -⟩ := hsame.exists_after hlink
  simp [hfound]

/-- An action leaves everything wired. -/
theorem perform {front back : List Action} {action : Action} {chance : Chance} {outcome : Outcome}
    (hwired : Wired manager (front ++ action :: back))
    (hperform : manager.perform chance action = some outcome) :
    Wired outcome.manager (front ++ (outcome.next ++ back)) := by
  have hcontinues := continues_perform hperform
  refine ⟨hcontinues.links.numbered hwired.numbered, fun other hother target htarget => ?_,
    fun {peer serial} hget => ?_, fun {serial} henter => ?_⟩
  · refine isSome_of_sameLinks hcontinues.links ?_
    rcases mem_kept_or_next hother with hkept | hnext
    · exact hwired.known other (mem_pending_of_kept hkept) target htarget
    · rcases (follows_perform hperform hnext).2 target htarget with hown | hevicts
      · exact hwired.known action (by simp) target hown
      · obtain ⟨peer, hget⟩ := hevicts.exists_get?
        obtain ⟨link, hlink, -⟩ := hwired.held hget
        simp [hlink]
  · have hlink : ∃ link, manager.link? serial = some link ∧ compare peer link.peer = .eq := by
      rcases hwired.get?_perform hperform hget with hbefore | ⟨-, link, hlink, -, hpeer⟩
      · exact hwired.held hbefore
      · exact ⟨link, hlink, hpeer⟩
    obtain ⟨link, hlink, hpeer⟩ := hlink
    obtain ⟨found, hfound, hidentity⟩ := hcontinues.links.exists_after hlink
    exact ⟨found, hfound, by rwa [Link.peer_eq_of_identity hidentity]⟩
  · -- only an action that was pending before can ask for a place
    have hkept : Action.enter serial ∈ front ++ back := mem_of_begins hperform rfl henter
    have hfresh := hwired.fresh (mem_pending_of_kept hkept)
    have htarget := not_mem_targets_of_alone hfresh.alone hkept
    have hnone : outcome.next.filter (fun action => serial ∈ action.targets) = [] := by
      refine List.filter_eq_nil_iff.2 fun next hnext hmem => ?_
      rcases (follows_perform hperform hnext).2 serial (by simpa using hmem) with hown | hevicts
      · exact htarget hown
      · obtain ⟨peer, hget⟩ := hevicts.exists_get?
        exact hfresh.absent peer hget
    refine ⟨?_, fun link hlink => ?_, fun peer hget => ?_⟩
    · have halone := hfresh.alone
      rw [List.filter_append, List.filter_cons_of_neg (by simpa using htarget)] at halone
      rw [List.filter_append, List.filter_append, hnone, List.nil_append, halone]
    · rw [link?_perform hperform htarget] at hlink
      exact hfresh.handshaking link hlink
    · rcases hwired.get?_perform hperform hget with hbefore | ⟨rfl, -⟩
      · exact hfresh.absent peer hbefore
      · exact htarget (by simp [Action.targets])

/-- Events that change neither the table nor the state of a link leave everything wired, as long as
what they add to the pending actions means links in the table. -/
theorem extend {more : List Action} (hwired : Wired manager pending)
    (hsame : SameLinks manager after) (htable : after.table = manager.table)
    (hstate : ∀ {serial link}, after.link? serial = some link →
      ∃ old, manager.link? serial = some old ∧ link.state = old.state)
    (hmore : ∀ action ∈ more, (∀ serial, action ≠ .enter serial) ∧
      ∀ target ∈ action.targets, ∃ peer, manager.table.get? peer = some target) :
    Wired after (pending ++ more) := by
  refine ⟨hsame.numbered hwired.numbered, fun action haction target htarget => ?_,
    fun {peer serial} hget => ?_, fun {serial} henter => ?_⟩
  · refine isSome_of_sameLinks hsame ?_
    rcases List.mem_append.1 haction with hold | hnew
    · exact hwired.known action hold target htarget
    · obtain ⟨peer, hget⟩ := (hmore action hnew).2 target htarget
      obtain ⟨link, hlink, -⟩ := hwired.held hget
      simp [hlink]
  · obtain ⟨link, hlink, hpeer⟩ := hwired.held (htable ▸ hget)
    obtain ⟨found, hfound, hidentity⟩ := hsame.exists_after hlink
    exact ⟨found, hfound, by rwa [Link.peer_eq_of_identity hidentity]⟩
  · rcases List.mem_append.1 henter with hold | hnew
    · have hfresh := hwired.fresh hold
      have hnone : more.filter (fun action => serial ∈ action.targets) = [] := by
        refine List.filter_eq_nil_iff.2 fun action hnew hmem => ?_
        obtain ⟨peer, hget⟩ := (hmore action hnew).2 serial (by simpa using hmem)
        exact hfresh.absent peer hget
      refine ⟨?_, fun link hlink => ?_, fun peer hget => hfresh.absent peer (htable ▸ hget)⟩
      · rw [List.filter_append, hnone, List.append_nil, hfresh.alone]
      · obtain ⟨old, hlink, hstate⟩ := hstate hlink
        rw [hstate]
        exact hfresh.handshaking old hlink
    · exact absurd rfl ((hmore _ hnew).1 serial)

/-- Events that add nothing to the pending actions. -/
theorem keep (hwired : Wired manager pending) (hsame : SameLinks manager after)
    (htable : after.table = manager.table)
    (hstate : ∀ {serial link}, after.link? serial = some link →
      ∃ old, manager.link? serial = some old ∧ link.state = old.state) :
    Wired after pending := by
  have hextended : Wired after (pending ++ []) := hwired.extend hsame htable hstate
    fun action haction => absurd haction List.not_mem_nil
  rwa [List.append_nil] at hextended

/-- A new link is wired to the task that asks for its place. -/
theorem addLink (hwired : Wired manager pending) {link : Link}
    (hserial : link.serial = manager.nextSerial) (hstate : link.state = .handshaking) :
    Wired (manager.addLink link) (pending ++ [.enter manager.nextSerial]) := by
  have hunused := link?_nextSerial hwired.numbered
  have hnew : manager.link? link.serial = none := hserial ▸ hunused
  have hother : ∀ {serial : Nat}, (manager.link? serial).isSome = true →
      (manager.addLink link).link? serial = manager.link? serial := by
    intro serial hknown
    rw [link?_addLink hnew, if_neg]
    rintro rfl
    simp [hnew] at hknown
  have hown : (manager.addLink link).link? manager.nextSerial = some link := by
    rw [link?_addLink hnew, if_pos hserial.symm]
  refine ⟨?_, fun action haction target htarget => ?_, fun {peer serial} hget => ?_,
    fun {serial} henter => ?_⟩
  · have hlength : (manager.links ++ [link]).length = manager.links.length + 1 := by simp
    show (manager.links ++ [link]).map Link.serial = List.range' 1 (manager.links ++ [link]).length
    rw [List.map_append, hwired.numbered, hlength, List.range'_concat, List.map_singleton, hserial,
      nextSerial, Nat.one_mul, Nat.add_comm 1]
  · rcases List.mem_append.1 haction with hold | hnew
    · have hknown := hwired.known action hold target htarget
      rwa [hother hknown]
    · obtain rfl : action = .enter manager.nextSerial := by simpa using hnew
      obtain rfl : target = manager.nextSerial := by simpa [Action.targets] using htarget
      simp [hown]
  · obtain ⟨found, hfound, hpeer⟩ := hwired.held hget
    exact ⟨found, by rw [hother (by simp [hfound]), hfound], hpeer⟩
  · rcases List.mem_append.1 henter with hold | hnew
    · have hfresh := hwired.fresh hold
      have hknown := hwired.known _ hold serial (by simp [Action.targets])
      have hne : serial ≠ manager.nextSerial := by
        rintro rfl
        simp [hunused] at hknown
      refine ⟨?_, fun found hfound => ?_, hfresh.absent⟩
      · rw [List.filter_append, hfresh.alone]
        simp [Action.targets, hne]
      · rw [hother hknown] at hfound
        exact hfresh.handshaking found hfound
    · obtain rfl : serial = manager.nextSerial := by simpa using hnew
      refine ⟨?_, fun found hfound => ?_, fun peer hget => ?_⟩
      · have hnone : pending.filter (fun action => manager.nextSerial ∈ action.targets) = [] := by
          refine List.filter_eq_nil_iff.2 fun action haction hmem => ?_
          have hknown := hwired.known action haction manager.nextSerial (by simpa using hmem)
          simp [hunused] at hknown
        rw [List.filter_append, hnone]
        simp [Action.targets]
      · obtain rfl : link = found := Option.some.inj (hown.symm.trans hfound)
        exact hstate
      · obtain ⟨found, hfound, -⟩ := hwired.held hget
        simp [hunused] at hfound

end Wired

end Manager

end RegionGossip
