import RegionGossip.Manager.Run
import RegionGossip.Proofs.Manager.Remembered

/-!
# What is reported of a neighbour

When nothing is half done, what a manager reports of a neighbour is what has happened: it is connected
if the table holds a link to it, terminated if the table holds none but some link to it was accepted
at some time, and unconnected if none ever was. This does not depend on how links came to their ends,
whether they were displaced, turned down, broken, closed by the neighbour or by a stop.
-/

namespace RegionGossip.BusyManager

open Manager

variable {busy after : BusyManager}

/-- The verdicts, the table and the history of a manager are in order. -/
structure Orderly (busy : BusyManager) : Prop where
  judged : busy.manager.Judged busy.pending busy.trace
  standing : busy.manager.Standing busy.pending
  remembers : busy.manager.Remembers busy.pending busy.trace

/-- Every event leaves everything in order. -/
theorem orderly_step {event : Event} (hsound : busy.Sound) (horderly : busy.Orderly)
    (hstep : busy.step event = some after) : after.Orderly := by
  obtain ⟨hjudged, hstanding, hremembers⟩ := horderly
  refine ⟨judged_step hsound hjudged hstep, standing_step hsound hstanding hstep, ?_⟩
  rcases outside_or_turned hsound hstep with ⟨more, marks, houtside⟩ |
    ⟨front, back, action, chance, outcome, hturned⟩
  · exact remembers_outside hremembers houtside
  · obtain ⟨hperform, hbefore, hpending, hmanager, htrace⟩ := hturned
    have hwired := hsound.wired
    rw [hbefore] at hwired hjudged hstanding hremembers
    rw [hmanager, hpending, htrace]
    exact hremembers.perform hwired hsound.recorded hjudged hstanding hperform

/-- After any run everything is in order. -/
theorem orderly_run {settings : Settings} {timing : Timing} {events : List Event}
    (hrun : (idle settings timing).run events = some busy) : busy.Orderly :=
  keeps_run Orderly orderly_step (sound_idle settings timing)
    ⟨judged_idle settings timing, standing_idle settings timing, remembers_idle settings timing⟩ hrun

/-! ## Starts that fail -/

/-- An event happens as it would without starts that fail, or nothing happens. -/
theorem step_or_eq_of_attempt {event : Event} (hattempt : busy.attempt event = some after) :
    busy.step event = some after ∨ after = busy := by
  cases event with
  | start directory binds node =>
    rw [attempt] at hattempt
    split at hattempt
    · exact .inl hattempt
    · exact .inr (Option.some.inj hattempt).symm
  | _ => exact .inl hattempt

/-- What is reached with starts that fail is reached without them. -/
theorem exists_run_of_attempts {events : List Event} (hattempts : busy.attempts events = some after) :
    ∃ kept, busy.run kept = some after := by
  induction events generalizing busy with
  | nil => exact ⟨[], hattempts⟩
  | cons event later ih =>
    obtain ⟨next, hattempt, hlater⟩ := Option.bind_eq_some_iff.1 hattempts
    obtain ⟨kept, hkept⟩ := ih hlater
    rcases step_or_eq_of_attempt hattempt with hstep | rfl
    · exact ⟨event :: kept, by rw [run, hstep, Option.bind_some, hkept]⟩
    · exact ⟨kept, hkept⟩

/-- A start fails where a session is going on, where the node has no address, and where listening on
its address fails. -/
theorem start_fails_iff (manager : Manager) (directory : Directory)
    (binds : Address → Option IoFault) (node : NodeId) :
    (∃ error, manager.start directory binds node = .error error) ↔
      manager.isRunning = true ∨ directory.address? node = none ∨
        ∃ address fault, directory.address? node = some address ∧ binds address = some fault := by
  rw [Manager.start]
  cases manager.isRunning with
  | true => simp
  | false =>
    cases haddress : directory.address? node with
    | none => simp
    | some address => cases hbinds : binds address <;> simp [hbinds]

/-! ## Settled managers -/

/-- What is reported of a neighbour agrees with the table and with what has happened. -/
structure Reports (busy : BusyManager) (peer : NodeId) : Prop where
  connected : busy.manager.linkState peer = .connected ↔ busy.manager.table.contains peer = true
  terminated : busy.manager.linkState peer = .terminated ↔
    busy.manager.table.contains peer = false ∧ Met busy.trace peer
  unconnected : busy.manager.linkState peer = .unconnected ↔ ¬ Met busy.trace peer

/-- In a settled manager a link that is not at its end is in the table. -/
theorem Settled.get?_of_live (hsettled : busy.Settled) (hsound : busy.Sound) {serial : Nat}
    {link : Link} (hlink : busy.manager.link? serial = some link)
    (hlive : link.state ≠ .terminated) :
    busy.manager.table.get? link.peer = some serial := by
  have hwaits {action : Action} (haction : action ∈ busy.pending)
      (hother : ∀ reading, action ≠ .read reading) : False := by
    obtain ⟨reading, -, hread, -⟩ := hsettled action haction
    exact hother reading hread
  have huncancelled : link.cancelled = false := by
    rcases hsound.tended.tended hlink with hterminated | ⟨action, haction, htends⟩
    · exact absurd hterminated hlive
    · obtain ⟨reading, found, rfl, hfound, hopen⟩ := hsettled action haction
      obtain rfl : reading = serial := Option.some.inj htends
      rwa [Option.some.inj (hlink.symm.trans hfound)]
  rcases hsound.tended.accounted hlink with hterminated | hcancelled | henter | hget | ⟨notify, hclose⟩
  · exact absurd hterminated hlive
  · rw [huncancelled] at hcancelled
    contradiction
  · exact (hwaits henter nofun).elim
  · exact hget
  · exact (hwaits hclose nofun).elim

/-- What a settled manager reports of a neighbour that has a link. -/
theorem Settled.reports_held (hsettled : busy.Settled) (hsound : busy.Sound)
    (horderly : busy.Orderly) {peer : NodeId} (hheld : busy.manager.table.contains peer = true) :
    busy.manager.linkState peer = .connected ∧ Met busy.trace peer := by
  rw [SortedMap.contains_eq_isSome] at hheld
  obtain ⟨serial, hget⟩ := Option.isSome_iff_exists.1 hheld
  obtain ⟨link, hlink, -⟩ := hsound.wired.held hget
  obtain ⟨-, -, newer, other, older, htrace, hpeer, -⟩ := horderly.judged.held hsound.recorded hget
  refine ⟨?_, other, serial, by simp [htrace], hpeer⟩
  rcases horderly.standing.connected hget hlink with hconnected | ⟨-, hdrop⟩
  · rw [Manager.linkState, Manager.entry?, hget, Option.bind_some, hlink]
    exact hconnected
  · obtain ⟨reading, -, hread, -⟩ := hsettled _ hdrop
    contradiction

/-- What a settled manager reports of a neighbour that has no link. -/
theorem Settled.reports_absent (hsettled : busy.Settled) (hsound : busy.Sound)
    (horderly : busy.Orderly) {peer : NodeId}
    (habsent : busy.manager.table.contains peer = false) :
    (busy.manager.linkState peer = .terminated ∧ Met busy.trace peer) ∨
      (busy.manager.linkState peer = .unconnected ∧ ¬ Met busy.trace peer) := by
  have hnone : busy.manager.table.get? peer = none := by
    rw [SortedMap.contains_eq_isSome] at habsent
    exact Option.isNone_iff_eq_none.1 (Option.isSome_eq_false_iff.1 habsent)
  have hstate : busy.manager.linkState peer =
      (busy.manager.history.get? peer).getD .unconnected := by
    rw [Manager.linkState, Manager.entry?, hnone]
    rfl
  cases hhistory : busy.manager.history.get? peer with
  | some state =>
    obtain rfl := horderly.remembers.terminated hhistory
    exact .inl ⟨by rw [hstate, hhistory]; rfl, horderly.remembers.met (by rw [hhistory]; rfl)⟩
  | none =>
    refine .inr ⟨by rw [hstate, hhistory]; rfl, fun hmet => ?_⟩
    rcases horderly.remembers.covered hmet with
      ⟨other, serial, link, haccepted, hpeer, hlink, hlive⟩ | hsome | ⟨other, hretain, -⟩
    · obtain rfl := horderly.judged.named haccepted hlink
      have hget := hsettled.get?_of_live hsound hlink hlive
      rw [← busy.manager.table.get?_congr (Ident.compare_eq_iff_beq.2 hpeer), hnone] at hget
      contradiction
    · rw [hhistory] at hsome
      contradiction
    · obtain ⟨reading, -, hread, -⟩ := hsettled _ hretain
      contradiction

/-- A settled manager reports of every neighbour what has happened. -/
theorem Settled.reports (hsettled : busy.Settled) (hsound : busy.Sound) (horderly : busy.Orderly)
    (peer : NodeId) : busy.Reports peer := by
  cases hheld : busy.manager.table.contains peer with
  | true =>
    obtain ⟨hstate, hmet⟩ := hsettled.reports_held hsound horderly hheld
    constructor <;> simp [hstate, hmet, hheld]
  | false =>
    rcases hsettled.reports_absent hsound horderly hheld with ⟨hstate, hmet⟩ | ⟨hstate, hmet⟩ <;>
      constructor <;> simp [hstate, hmet, hheld]

/-- Where no session is going on and no stop has yet to empty the table, nobody has a link. -/
theorem not_connected_of_stopped (hsound : busy.Sound) (horderly : busy.Orderly)
    (hstopped : busy.manager.session = none) (hdrained : ¬ Draining busy.pending) :
    busy.manager.neighbors = [] ∧ ∀ peer, busy.manager.linkState peer ≠ .connected := by
  have hnone (peer : NodeId) : busy.manager.table.get? peer = none := by
    refine Option.eq_none_iff_forall_ne_some.2 fun serial hget => ?_
    obtain ⟨link, hlink, -⟩ := hsound.wired.held hget
    obtain ⟨session, hsession, -⟩ :=
      isLive_iff.1 ((hsound.sessions.live.resolve_left hdrained) hget hlink)
    rw [hstopped] at hsession
    contradiction
  refine ⟨?_, fun peer hconnected => ?_⟩
  · rw [Manager.neighbors, SortedMap.keys, List.map_eq_nil_iff, List.eq_nil_iff_forall_not_mem]
    intro entry hentry
    exact absurd ((hnone entry.1).symm.trans (busy.manager.table.get?_of_mem hentry)) nofun
  · rw [Manager.linkState, Manager.entry?, hnone] at hconnected
    cases hhistory : busy.manager.history.get? peer with
    | none =>
      rw [hhistory] at hconnected
      contradiction
    | some state =>
      obtain rfl := horderly.remembers.terminated hhistory
      rw [hhistory] at hconnected
      contradiction

/-- After any run, with starts that fail wherever they may, a manager in which nothing is half done
reports of a neighbour that it is connected exactly if the table holds a link to it, that it is
terminated exactly if the table holds none but one was accepted at some time, and that it is
unconnected exactly if none ever was. A link that was told to end is half done until its read loop has
ended and all that follows from that is done. Once a stop has emptied the table nobody has a link and
nobody is connected until the next start. A start fails in three cases, and changes nothing then. -/
theorem reported_states {settings : Settings} {timing : Timing} {events : List Event}
    (hrun : (idle settings timing).attempts events = some busy) :
    (busy.Settled → ∀ peer, busy.Reports peer) ∧
    (busy.manager.session = none → ¬ Draining busy.pending →
      busy.manager.neighbors = [] ∧ ∀ peer, busy.manager.linkState peer ≠ .connected) ∧
    (∀ directory binds node,
      ((∃ error, busy.manager.start directory binds node = .error error) ↔
        busy.manager.isRunning = true ∨ directory.address? node = none ∨
          ∃ address fault, directory.address? node = some address ∧ binds address = some fault) ∧
      ((∃ error, busy.manager.start directory binds node = .error error) →
        busy.attempt (.start directory binds node) = some busy)) := by
  obtain ⟨kept, hkept⟩ := exists_run_of_attempts hrun
  have hsound := (sound_idle settings timing).run hkept
  have horderly := orderly_run hkept
  refine ⟨fun hsettled => hsettled.reports hsound horderly,
    not_connected_of_stopped hsound horderly,
    fun directory binds node => ⟨start_fails_iff busy.manager directory binds node, ?_⟩⟩
  rintro ⟨error, hfails⟩
  rw [attempt, hfails]

/-- A node is started, and started again, which fails; two neighbours get links, and the second one
ends its stream. -/
def visits : List Event := [
  .start (Directory.empty.register ⟨"a"⟩ ⟨"127.0.0.1", 4000⟩) (fun _ => none) ⟨"a"⟩,
  .start (Directory.empty.register ⟨"a"⟩ ⟨"127.0.0.1", 4000⟩) (fun _ => none) ⟨"a"⟩,
  .greet 0 0 .accepted ⟨"b"⟩ 5, .work 0 {},
  .greet 0 0 .accepted ⟨"c"⟩ 7, .work 1 {},
  .arrive 2 [] true, .work 1 {}, .work 1 {}, .work 1 {}, .work 1 {}, .work 1 {}]

/-- The node is stopped, and the read loop of the link that is left comes to its end. -/
def farewell : List Event := [.stop, .work 2 {}, .work 2 {}, .work 2 {},
  .work 0 { reading := .cancellation }, .work 0 {}, .work 0 {}, .work 0 {}, .work 2 {}]

/-- The first neighbour has a link, the second one had one, and a third one never had. After the stop
nobody has one. -/
theorem visits_reported :
    (∃ busy, (idle {} {}).attempts visits = some busy ∧
      busy.manager.table.contains ⟨"B"⟩ = true ∧
      (busy.manager.table.contains ⟨"C"⟩ = false ∧ Met busy.trace ⟨"C"⟩) ∧
      ¬ Met busy.trace ⟨"d"⟩ ∧
      ∀ directory binds node, busy.attempt (.start directory binds node) = some busy) ∧
    ∃ busy, (idle {} {}).attempts (visits ++ farewell) = some busy ∧
      busy.manager.neighbors = [] ∧ busy.manager.linkState ⟨"B"⟩ = .terminated := by
  constructor
  · have hvisits : ((idle {} {}).attempts visits).map (fun busy =>
        (decide busy.Settled, busy.manager.isRunning, busy.manager.linkState ⟨"B"⟩,
          busy.manager.linkState ⟨"C"⟩, busy.manager.linkState ⟨"d"⟩)) =
        some (true, true, .connected, .terminated, .unconnected) := by
      decide +kernel
    obtain ⟨busy, hrun, hbusy⟩ := Option.map_eq_some_iff.1 hvisits
    simp only [Prod.mk.injEq, decide_eq_true_eq] at hbusy
    obtain ⟨hsettled, hrunning, hb, hc, hd⟩ := hbusy
    obtain ⟨hreports, -, hstarts⟩ := reported_states hrun
    refine ⟨busy, hrun, (hreports hsettled ⟨"B"⟩).connected.1 hb,
      (hreports hsettled ⟨"C"⟩).terminated.1 hc, (hreports hsettled ⟨"d"⟩).unconnected.1 hd,
      fun directory binds node => ?_⟩
    obtain ⟨hfails, hsame⟩ := hstarts directory binds node
    exact hsame (hfails.2 (.inl hrunning))
  · have hfarewell : ((idle {} {}).attempts (visits ++ farewell)).map (fun busy =>
        (decide busy.Settled, busy.manager.isRunning, busy.manager.linkState ⟨"B"⟩)) =
        some (true, false, .terminated) := by
      decide +kernel
    obtain ⟨busy, hrun, hbusy⟩ := Option.map_eq_some_iff.1 hfarewell
    simp only [Prod.mk.injEq, decide_eq_true_eq] at hbusy
    obtain ⟨hsettled, hstopped, hb⟩ := hbusy
    have hdrained : ¬ Draining busy.pending := fun ⟨number, hdrain⟩ => by
      obtain ⟨serial, -, hread, -⟩ := hsettled _ hdrain
      contradiction
    have hsession : busy.manager.session = none := by
      rwa [Manager.isRunning, Option.isSome_eq_false_iff, Option.isNone_iff_eq_none] at hstopped
    exact ⟨busy, hrun, ((reported_states hrun).2.1 hsession hdrained).1, hb⟩

end RegionGossip.BusyManager
