import RegionGossip.Proofs.Manager.Surroundings

/-!
# Each link is judged once

A link asks for its place in the table once. The verdict is the first thing that is recorded of it,
and only a link that was accepted is read, comes to its end through its read loop, or is closed by a
stop. So what the table holds was never refused and has not left, and no neighbour of it has been
given another link since.
-/

namespace RegionGossip

namespace Mark

/-- The link on which a verdict is given. -/
def verdict? : Mark → Option Nat
  | .accepted _ serial | .refused _ serial => some serial
  | _ => none

/-- A verdict has happened to the link on which it is given. -/
theorem serial?_of_verdict? {mark : Mark} {serial : Nat} (hverdict : mark.verdict? = some serial) :
    mark.serial? = some serial := by
  cases mark with
  | accepted | refused => exact hverdict
  | _ => contradiction

end Mark

/-- The links of which an action takes for granted that they were accepted. -/
def Action.admits : Action → List Nat
  | .read serial | .leave serial _ | .bury serial _ => [serial]
  | .finish _ serials => serials
  | _ => []

/-- A link was accepted at some time. -/
def Accepted (trace : List Mark) (serial : Nat) : Prop := ∃ peer, .accepted peer serial ∈ trace

/-- Some link to a neighbour was accepted at some time. -/
def Met (trace : List Mark) (peer : NodeId) : Prop :=
  ∃ other serial, .accepted other serial ∈ trace ∧ (peer == other) = true

/-- The holder of a neighbour's place was accepted for that neighbour. Since then no other link was
accepted for it, and the holder has not left. -/
theorem exists_accepted_of_holder {peer : NodeId} {serial : Nat} {trace : List Mark}
    (hholder : holder peer trace = some serial) :
    ∃ newer other older, trace = newer ++ .accepted other serial :: older ∧
      (peer == other) = true ∧ .left serial ∉ newer ∧
        ∀ next entered, .accepted next entered ∈ newer → (peer == next) = false := by
  induction trace with
  | nil => contradiction
  | cons mark older ih =>
    have hskip (hrest : holder peer older = some serial) (hleft : mark ≠ .left serial)
        (haccepted : ∀ next entered, mark = .accepted next entered → (peer == next) = false) :
        ∃ newer other rest, mark :: older = newer ++ .accepted other serial :: rest ∧
          (peer == other) = true ∧ .left serial ∉ newer ∧
            ∀ next entered, .accepted next entered ∈ newer → (peer == next) = false := by
      obtain ⟨newer, other, rest, rfl, hpeer, hstays, hnone⟩ := ih hrest
      refine ⟨mark :: newer, other, rest, rfl, hpeer, ?_, fun next entered hmem => ?_⟩
      · rw [List.mem_cons, not_or]
        exact ⟨hleft.symm, hstays⟩
      · rcases List.mem_cons.1 hmem with hmark | hnewer
        · exact haccepted next entered hmark.symm
        · exact hnone next entered hnewer
    cases mark with
    | accepted other entered =>
      rw [holder] at hholder
      split at hholder
      · rename_i hpeer
        obtain rfl := Option.some.inj hholder
        exact ⟨[], other, older, rfl, hpeer, List.not_mem_nil, fun _ _ hmem =>
          absurd hmem List.not_mem_nil⟩
      · rename_i hother
        refine hskip hholder nofun ?_
        rintro next _ ⟨⟩
        simpa using hother
    | left gone =>
      rw [holder, Option.filter_eq_some_iff] at hholder
      obtain ⟨hrest, hstays⟩ := hholder
      refine hskip hrest ?_ nofun
      rintro ⟨⟩
      simp at hstays
    | drained => contradiction
    | started session => exact hskip hholder nofun nofun
    | stopped => exact hskip hholder nofun nofun
    | refused other entered => exact hskip hholder nofun nofun
    | exited gone exit => exact hskip hholder nofun nofun
    | failed gone => exact hskip hholder nofun nofun

namespace Manager

/-- The verdicts on the links of a manager. -/
structure Judged (manager : Manager) (pending : List Action) (trace : List Mark) : Prop where
  known : ∀ mark ∈ trace, ∀ serial, mark.serial? = some serial →
    (manager.link? serial).isSome = true
  /-- Nothing was recorded of a link that still asks for its place. -/
  unasked : ∀ {serial}, .enter serial ∈ pending → ∀ mark ∈ trace, mark.serial? ≠ some serial
  /-- Nothing was recorded of a link before its verdict. -/
  first : trace.Pairwise fun newer older =>
    ∀ serial, newer.verdict? = some serial → older.serial? ≠ some serial
  named : ∀ {peer serial link}, .accepted peer serial ∈ trace →
    manager.link? serial = some link → link.peer = peer
  refused : ∀ {serial}, .terminate serial ∈ pending → ∃ peer, .refused peer serial ∈ trace
  admitted : ∀ action ∈ pending, ∀ serial ∈ action.admits, Accepted trace serial
  met : ∀ {peer}, .retain peer ∈ pending → Met trace peer

variable {manager after : Manager} {pending front back : List Action} {trace : List Mark}
  {chance : Chance} {action : Action} {outcome : Outcome}

/-- At most one thing is recorded of an action. It concerns a link that the action means, and it is
a verdict only on a link that has asked for its place. -/
theorem marks_perform (hperform : manager.perform chance action = some outcome) :
    outcome.marks.length ≤ 1 ∧ ∀ mark ∈ outcome.marks,
      (∀ serial, mark.serial? = some serial → serial ∈ action.targets) ∧
        ∀ serial, mark.verdict? = some serial → action = .enter serial := by
  cases action with
  | enter entered =>
    obtain ⟨link, -, ⟨-, rfl⟩ | ⟨-, rfl⟩⟩ := perform_enter hperform <;>
      simp [Mark.serial?, Mark.verdict?, Action.targets]
  | close notify closed =>
    obtain ⟨link, -, ⟨-, rfl⟩ | ⟨-, rfl⟩⟩ := perform_close hperform <;> simp
  | shut | terminate | finish =>
    obtain rfl := Option.some.inj hperform
    simp
  | read read =>
    obtain ⟨link, after, -, -, -, ⟨exit, -, -, hmarks⟩ | ⟨-, -, hmarks⟩⟩ :=
      perform_read hperform <;> simp [hmarks, Mark.serial?, Mark.verdict?, Action.targets]
  | leave gone exit =>
    obtain ⟨link, -, rfl⟩ := perform_leave hperform
    simp [Mark.serial?, Mark.verdict?, Action.targets]
  | bury gone released =>
    obtain ⟨link, -, ⟨-, rfl⟩ | ⟨-, rfl⟩⟩ := perform_bury hperform <;> simp
  | retain peer =>
    obtain ⟨-, rfl⟩ | ⟨-, rfl⟩ := perform_retain hperform <;> simp
  | send payload sent =>
    obtain ⟨link, -, -, ⟨error, -, -, hmarks⟩ | ⟨-, -, hmarks⟩⟩ := perform_send hperform <;>
      simp [hmarks, Mark.serial?, Mark.verdict?, Action.targets]
  | drop gone =>
    obtain ⟨link, -, rfl⟩ := perform_drop hperform
    simp [Mark.serial?, Mark.verdict?, Action.targets]
  | drain session =>
    obtain rfl := Option.some.inj hperform
    simp [Mark.serial?, Mark.verdict?]

namespace Judged

/-- What the table holds was accepted. -/
theorem accepted_of_held (hrecorded : Recorded manager trace) {peer : NodeId} {serial : Nat}
    (hget : manager.table.get? peer = some serial) : Accepted trace serial := by
  rw [hrecorded.table] at hget
  obtain ⟨newer, other, older, rfl, -⟩ := exists_accepted_of_holder hget
  exact ⟨other, by simp⟩

/-- What was accepted stays so. -/
theorem accepted_append {newer : List Mark} {serial : Nat} (haccepted : Accepted trace serial) :
    Accepted (newer ++ trace) serial :=
  haccepted.imp fun _ hmem => List.mem_append_right _ hmem

/-- A neighbour that was met stays so. -/
theorem met_append {newer : List Mark} {peer : NodeId} (hmet : Met trace peer) :
    Met (newer ++ trace) peer := by
  obtain ⟨other, serial, hmem, hpeer⟩ := hmet
  exact ⟨other, serial, List.mem_append_right _ hmem, hpeer⟩

/-- The neighbour of an accepted link was met. -/
theorem met_of_accepted (hjudged : Judged manager pending trace) {serial : Nat} {link : Link}
    (haccepted : Accepted trace serial) (hlink : manager.link? serial = some link) :
    Met trace link.peer := by
  obtain ⟨peer, hmem⟩ := haccepted
  exact ⟨peer, serial, hmem, by rw [hjudged.named hmem hlink, BEq.refl]⟩

/-- An action takes nothing back of what was judged. -/
theorem perform (hwired : Wired manager (front ++ action :: back))
    (hrecorded : Recorded manager trace) (hjudged : Judged manager (front ++ action :: back) trace)
    (hperform : manager.perform chance action = some outcome) :
    Judged outcome.manager (front ++ (outcome.next ++ back)) (outcome.marks ++ trace) := by
  have hsame := (continues_perform hperform).links
  obtain ⟨hlength, hmarks⟩ := marks_perform hperform
  have haction : action ∈ front ++ action :: back := by simp
  refine ⟨fun mark hmark serial hserial => ?_, fun {serial} henter mark hmark hserial => ?_, ?_,
    fun {peer serial link} haccepted hlink => ?_, fun {serial} hterminate => ?_,
    fun other hother serial hadmits => ?_, fun {peer} hretain => ?_⟩
  · refine Wired.isSome_of_sameLinks hsame ?_
    rcases List.mem_append.1 hmark with hnew | hold
    · exact hwired.known action haction serial ((hmarks mark hnew).1 serial hserial)
    · exact hjudged.known mark hold serial hserial
  · have hkept := mem_of_begins hperform rfl henter
    have hbefore : Action.enter serial ∈ front ++ action :: back := mem_pending_of_kept hkept
    rcases List.mem_append.1 hmark with hnew | hold
    · exact not_mem_targets_of_alone (hwired.fresh hbefore).alone hkept
        ((hmarks mark hnew).1 serial hserial)
    · exact hjudged.unasked hbefore mark hold hserial
  · refine List.pairwise_append.2 ⟨?_, hjudged.first,
      fun newer hnewer older holder serial hverdict => ?_⟩
    · match outcome.marks, hlength with
      | [], _ => exact .nil
      | [mark], _ => exact List.pairwise_singleton ..
    · obtain rfl := (hmarks newer hnewer).2 serial hverdict
      exact hjudged.unasked haction older holder
  · obtain ⟨old, hold, hidentity⟩ := hsame.exists_before hlink
    rw [← Link.peer_eq_of_identity hidentity]
    rcases List.mem_append.1 haccepted with hnew | holder
    · obtain rfl := (hmarks _ hnew).2 serial rfl
      obtain ⟨found, hfound, ⟨-, rfl⟩ | ⟨-, rfl⟩⟩ := perform_enter hperform
      · obtain rfl : old = found := Option.some.inj (hold.symm.trans hfound)
        obtain ⟨rfl, -⟩ := Mark.accepted.inj (List.mem_singleton.1 hnew)
        rfl
      · exact absurd (List.mem_singleton.1 hnew) nofun
    · exact hjudged.named holder hold
  · rcases mem_kept_or_next hterminate with hkept | hnext
    · exact (hjudged.refused (mem_pending_of_kept hkept)).imp fun _ => List.mem_append_right _
    · cases follows_of_next hperform hnext with
      | rejected hlink hrefuses hmark => exact ⟨_, List.mem_append_left _ hmark⟩
  · rcases mem_kept_or_next hother with hkept | hnext
    · exact accepted_append (hjudged.admitted other (mem_pending_of_kept hkept) serial hadmits)
    · have hown (hadmitted : serial ∈ action.admits) : Accepted (outcome.marks ++ trace) serial :=
        accepted_append (hjudged.admitted action haction serial hadmitted)
      cases follows_of_next hperform hnext with
      | accepted hlink haccepts hmark =>
        obtain rfl := List.mem_singleton.1 hadmits
        exact ⟨_, List.mem_append_left _ hmark⟩
      | finish hvisited =>
        obtain ⟨peer, hget⟩ := manager.table.mem_values_iff.1 (hvisited.mem_iff.1 hadmits)
        exact accepted_append (accepted_of_held hrecorded hget)
      | again | exited | bury => exact hown hadmits
      | displaced | refused | rejected | shut | left | retain | failed | dropped | drained =>
        exact absurd hadmits List.not_mem_nil
  · rcases mem_kept_or_next hretain with hkept | hnext
    · exact met_append (hjudged.met (mem_pending_of_kept hkept))
    · cases follows_of_next hperform hnext with
      | retain hlink =>
        have haccepted := hjudged.admitted _ haction _ List.mem_cons_self
        exact met_append (hjudged.met_of_accepted haccepted hlink)

end Judged

/-- Nothing was recorded of a link before its verdict, and no other verdict after it. -/
theorem Judged.sole (hjudged : Judged manager pending trace) {newer older : List Mark} {mark : Mark}
    {serial : Nat} (htrace : trace = newer ++ mark :: older)
    (hverdict : mark.verdict? = some serial) :
    (∀ other ∈ newer, other.verdict? ≠ some serial) ∧
      ∀ other ∈ older, other.serial? ≠ some serial := by
  have hfirst := hjudged.first
  rw [htrace] at hfirst
  obtain ⟨-, hrest, hcross⟩ := List.pairwise_append.1 hfirst
  refine ⟨fun other hnewer hother => ?_, fun other holder => ?_⟩
  · exact hcross other hnewer mark List.mem_cons_self serial hother
      (Mark.serial?_of_verdict? hverdict)
  · exact (List.pairwise_cons.1 hrest).1 other holder serial hverdict

/-- An accepted link was not refused. -/
theorem Judged.unrefused (hjudged : Judged manager pending trace) {serial : Nat}
    (haccepted : Accepted trace serial) (other : NodeId) : .refused other serial ∉ trace := by
  obtain ⟨peer, hmem⟩ := haccepted
  obtain ⟨newer, older, htrace⟩ := List.append_of_mem hmem
  obtain ⟨hnewer, holder⟩ := hjudged.sole htrace rfl
  intro hrefused
  rw [htrace] at hrefused
  rcases List.mem_append.1 hrefused with hnew | hold
  · exact hnewer _ hnew rfl
  · rcases List.mem_cons.1 hold with hsame | hold
    · contradiction
    · exact holder _ hold rfl

/-- A link that the table holds was accepted for this neighbour, neither refused nor has it left, and
no other link was accepted for the neighbour since. -/
theorem Judged.held (hjudged : Judged manager pending trace) (hrecorded : Recorded manager trace)
    {peer : NodeId} {serial : Nat} (hget : manager.table.get? peer = some serial) :
    (∀ other, .refused other serial ∉ trace) ∧ .left serial ∉ trace ∧
      ∃ newer other older, trace = newer ++ .accepted other serial :: older ∧
        (peer == other) = true ∧
          ∀ next entered, .accepted next entered ∈ newer → (peer == next) = false := by
  have hunrefused := hjudged.unrefused (accepted_of_held hrecorded hget)
  rw [hrecorded.table] at hget
  obtain ⟨newer, other, older, htrace, hpeer, hstays, hnone⟩ := exists_accepted_of_holder hget
  refine ⟨hunrefused, fun hleft => ?_, newer, other, older, htrace, hpeer, hnone⟩
  rw [htrace] at hleft
  rcases List.mem_append.1 hleft with hnew | hold
  · exact hstays hnew
  · rcases List.mem_cons.1 hold with hsame | hold
    · contradiction
    · exact (hjudged.sole htrace rfl).2 _ hold rfl

end Manager

namespace BusyManager

open Manager

variable {busy after : BusyManager}

/-- Nothing was judged before a manager was started. -/
theorem judged_idle (settings : Settings) (timing : Timing) :
    (idle settings timing).manager.Judged (idle settings timing).pending
      (idle settings timing).trace where
  known _ hmark := absurd hmark List.not_mem_nil
  unasked henter := absurd henter List.not_mem_nil
  first := .nil
  named haccepted := absurd haccepted List.not_mem_nil
  refused hterminate := absurd hterminate List.not_mem_nil
  admitted _ haction := absurd haction List.not_mem_nil
  met hretain := absurd hretain List.not_mem_nil

/-- What happens outside the tasks takes nothing back of what was judged. -/
theorem judged_outside {more : List Action} {marks : List Mark}
    (hjudged : busy.manager.Judged busy.pending busy.trace)
    (houtside : Outside busy after more marks) :
    after.manager.Judged after.pending after.trace := by
  have hknown {mark : Mark} {serial : Nat} (hmark : mark ∈ busy.trace)
      (hserial : mark.serial? = some serial) : ∃ old, busy.manager.link? serial = some old :=
    Option.isSome_iff_exists.1 (hjudged.known mark hmark serial hserial)
  refine ⟨fun mark hmark serial hserial => ?_, fun {serial} henter mark hmark hserial => ?_, ?_,
    fun {peer serial link} haccepted hlink => ?_, fun {serial} hterminate => ?_,
    fun action haction serial hadmits => ?_, fun {peer} hretain => ?_⟩
  · obtain ⟨old, hold⟩ := hknown (houtside.mem_trace hserial hmark) hserial
    obtain ⟨next, hnext, -⟩ := houtside.kept hold
    rw [hnext]
    rfl
  · have hbefore := houtside.mem_trace hserial hmark
    rw [houtside.pending] at henter
    rcases List.mem_append.1 henter with hold | hnew
    · exact hjudged.unasked hold mark hbefore hserial
    · obtain ⟨old, hold⟩ := hknown hbefore hserial
      exact absurd ((houtside.fresh hnew).symm.trans hold) nofun
  · -- marks that concern no link are no verdicts
    have hsilent {mark : Mark} (hmark : mark ∈ marks) (serial : Nat) :
        mark.verdict? ≠ some serial := fun hverdict =>
      absurd ((houtside.unnamed mark hmark).symm.trans (Mark.serial?_of_verdict? hverdict)) nofun
    rw [houtside.trace]
    refine List.pairwise_append.2 ⟨?_, hjudged.first, fun newer hnewer _ _ serial hverdict =>
      absurd hverdict (hsilent hnewer serial)⟩
    exact List.Pairwise.imp_of_mem (fun hnewer _ _ serial hverdict =>
      absurd hverdict (hsilent hnewer serial)) (List.pairwise_of_forall fun _ _ => trivial)
  · have hbefore := houtside.mem_trace rfl haccepted
    obtain ⟨old, hold⟩ := hknown hbefore rfl
    obtain ⟨next, hnext, hpassed⟩ := houtside.kept hold
    obtain rfl : link = next := Option.some.inj (hlink.symm.trans hnext)
    rw [Link.peer_eq_of_identity hpassed.identity]
    exact hjudged.named hbefore hold
  · exact (hjudged.refused (houtside.mem_pending rfl hterminate)).imp fun _ =>
      houtside.mem_trace_of_before
  · have hlater : action.begins = false := by
      cases action with
      | enter | send | drain => exact absurd hadmits List.not_mem_nil
      | _ => rfl
    exact (hjudged.admitted action (houtside.mem_pending hlater haction) serial hadmits).imp fun _ =>
      houtside.mem_trace_of_before
  · obtain ⟨other, serial, hmem, hpeer⟩ := hjudged.met (houtside.mem_pending rfl hretain)
    exact ⟨other, serial, houtside.mem_trace_of_before hmem, hpeer⟩

/-- No event takes anything back of what was judged. -/
theorem judged_step {event : Event} (hsound : busy.Sound)
    (hjudged : busy.manager.Judged busy.pending busy.trace)
    (hstep : busy.step event = some after) : after.manager.Judged after.pending after.trace := by
  rcases outside_or_turned hsound hstep with ⟨more, marks, houtside⟩ |
    ⟨front, back, action, chance, outcome, hturned⟩
  · exact judged_outside hjudged houtside
  · obtain ⟨hperform, hbefore, hpending, hmanager, htrace⟩ := hturned
    have hwired := hsound.wired
    rw [hbefore] at hwired hjudged
    rw [hmanager, hpending, htrace]
    exact hjudged.perform hwired hsound.recorded hperform

/-- After any run every link was judged once. -/
theorem judged_run {settings : Settings} {timing : Timing} {events : List Event}
    (hrun : (idle settings timing).run events = some busy) :
    busy.manager.Judged busy.pending busy.trace :=
  keeps_run _ judged_step (sound_idle settings timing) (judged_idle settings timing) hrun

end BusyManager

end RegionGossip
