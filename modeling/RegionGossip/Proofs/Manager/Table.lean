import RegionGossip.Proofs.Manager.Runs

/-!
# The table of neighbours

After any run, with any number of tasks interrupted anywhere, the table holds for each neighbour the
link that was accepted last, unless this very link has left since or a stop has emptied the table.
A link that was displaced or turned down takes nothing with it when it ends. A new link is accepted
by the rule of ranks, and that rule, too, looks at nothing but what has happened.

No link leads to the node that it was made by. Yet a stop lets go of its session before it empties
the table, so a start that comes in between may take the name of a neighbour that is still in it.
-/

namespace RegionGossip.BusyManager

variable {busy : BusyManager}

/-- Whether a link has a claim to a place in the table: its session is going on, and its neighbour
has no link, or one that is not in use, is stale, or is of lower rank. -/
def Prevails (busy : BusyManager) (now : Nat) (link : Link) : Prop :=
  openSession busy.trace = some link.session ∧
    ∀ old, holder link.peer busy.trace = some old →
      ∃ existing, busy.manager.link? old = some existing ∧
        (existing.state ≠ .connected ∨
          existing.isStale now busy.manager.staleAfter = true ∨ existing.nonce < link.nonce)

/-- The table takes exactly the links that prevail. -/
theorem accepts_iff_prevails (hsound : busy.Sound) (now : Nat) (link : Link) :
    busy.manager.accepts now link = true ↔ busy.Prevails now link := by
  have hsession : busy.manager.isLive link.session = true ↔
      openSession busy.trace = some link.session := by
    rw [← hsound.recorded.session, Manager.isLive]
    cases busy.manager.session <;> simp
  rw [Manager.accepts, Bool.and_eq_true, hsession, Prevails, ← hsound.recorded.table]
  refine and_congr_right fun _ => ?_
  rw [Manager.entry?]
  cases hget : busy.manager.table.get? link.peer with
  | none => simp
  | some old =>
    obtain ⟨existing, hexisting, -⟩ := hsound.wired.held hget
    simp [hexisting, Manager.yields, prefersCandidate, or_assoc]

/-- Greetings whose neighbour is welcome make a link to it that asks for its place in the table, and
others make none. -/
theorem step_greet_of_session (hsound : busy.Sound) {number : Nat} {session : Session}
    (hsession : busy.sessions[number]? = some session) (now : Nat) (origin : Origin)
    (peer : NodeId) (nonce : Int64) :
    (origin.fits session peer = true →
      ∃ link after, busy.step (.greet now number origin peer nonce) = some after ∧
        after.manager.link? link.serial = some link ∧
        link.peer = peer ∧ link.nonce = nonce ∧ link.session = number ∧
        after.manager.table = busy.manager.table ∧
        after.tasks = busy.tasks ++ [⟨some number, [.enter link.serial]⟩]) ∧
    (origin.fits session peer = false →
      busy.step (.greet now number origin peer nonce) = none) := by
  obtain rfl : session.number = number := hsound.sessions.numbered hsession
  have hunused := Manager.link?_nextSerial hsound.wired.numbered
  refine ⟨fun hfits => ?_, fun hfits => ?_⟩
  · have hgreet : busy.step (.greet now session.number origin peer nonce) = some { busy with
        manager := busy.manager.addLink (busy.manager.newLink now session peer nonce)
        tasks := busy.tasks ++ [⟨some session.number, [.enter busy.manager.nextSerial]⟩] } := by
      simp only [step, hsession, Option.bind_eq_bind, Option.bind_some, if_pos hfits]
      rfl
    exact ⟨_, _, hgreet, (Manager.link?_addLink hunused _).trans (if_pos rfl), rfl, rfl, rfl, rfl,
      rfl⟩
  · simp [step, hsession, hfits]

/-- Whenever the turn comes to a new link, it is accepted if it prevails, and refused, with the table
as it was, if it does not. -/
theorem work_enter (hsound : busy.Sound) {index serial : Nat} {task : Task} {rest : List Action}
    (htask : busy.tasks[index]? = some task) (hactions : task.actions = .enter serial :: rest)
    (chance : Chance) :
    ∃ link after, busy.manager.link? serial = some link ∧
      busy.step (.work index chance) = some after ∧
      (busy.Prevails chance.now link →
        after.trace = .accepted link.peer serial :: busy.trace ∧
          after.manager.table.get? link.peer = some serial) ∧
      (¬ busy.Prevails chance.now link →
        after.trace = .refused link.peer serial :: busy.trace ∧
          after.manager.table = busy.manager.table) := by
  have hpending : Action.enter serial ∈ busy.pending :=
    List.mem_flatMap.2 ⟨task, List.mem_of_getElem? htask, hactions ▸ List.mem_cons_self⟩
  obtain ⟨link, hlink⟩ := Option.isSome_iff_exists.1
    (hsound.wired.known _ hpending serial (by simp [Action.targets]))
  have hwork : busy.step (.work index chance) =
      (busy.manager.perform chance (.enter serial)).map fun outcome =>
        { busy with
          manager := outcome.manager
          tasks := busy.tasks.set index { task with actions := outcome.next ++ rest }
          trace := outcome.marks ++ busy.trace } := by
    simp only [step, work, htask, hactions, mayBegin, Option.bind_eq_bind, Option.bind_some, if_true]
    cases busy.manager.perform chance (.enter serial) <;> rfl
  rw [Manager.perform_enter_of_link hlink] at hwork
  by_cases haccepts : busy.manager.accepts chance.now link = true
  · rw [if_pos haccepts, Option.map_some] at hwork
    refine ⟨link, _, hlink, hwork, fun _ => ⟨rfl, ?_⟩, fun hrefused => ?_⟩
    · show (busy.manager.table.insert link.peer link.serial).get? link.peer = _
      rw [SortedMap.get?_insert, if_pos Std.ReflCmp.compare_self, Manager.serial_of_link? hlink]
    · exact absurd ((accepts_iff_prevails hsound chance.now link).1 haccepts) hrefused
  · rw [if_neg haccepts, Option.map_some] at hwork
    refine ⟨link, _, hlink, hwork, fun hprevails => ?_, fun _ => ⟨rfl, rfl⟩⟩
    exact absurd ((accepts_iff_prevails hsound chance.now link).2 hprevails) haccepts

/-- Each entry of the table is a link to the neighbour that is its key. -/
theorem exists_link_of_mem (hsound : busy.Sound) {key : NodeId} {serial : Nat}
    (hmem : (key, serial) ∈ busy.manager.table.entries) :
    ∃ link session, busy.manager.link? serial = some link ∧ (key == link.peer) = true ∧
      busy.sessions[link.session]? = some session ∧ (key == session.node) = false := by
  obtain ⟨link, hlink, hpeer⟩ := hsound.wired.held (busy.manager.table.get?_of_mem hmem)
  obtain ⟨session, hsession, hother⟩ := hsound.sessions.made hlink
  rw [Ident.compare_eq_iff_beq] at hpeer
  exact ⟨link, session, hlink, hpeer, hsession, by rw [BEq.congr_left hpeer, hother]⟩

/-- Entries of one neighbour, or of one link, are the same entry. -/
theorem entry_unique (hsound : busy.Sound) {left right : NodeId × Nat}
    (hleft : left ∈ busy.manager.table.entries) (hright : right ∈ busy.manager.table.entries)
    (hsame : (left.1 == right.1) = true ∨ left.2 = right.2) : left = right := by
  have hkeys : (left.1 == right.1) = true := by
    rcases hsame with hkeys | hserials
    · exact hkeys
    · obtain ⟨link, -, hlink, hpeer, -⟩ := exists_link_of_mem hsound hleft
      obtain ⟨other, -, hother, hotherPeer, -⟩ := exists_link_of_mem hsound hright
      obtain rfl : link = other := by
        rw [hserials] at hlink
        exact Option.some.inj (hlink.symm.trans hother)
      exact BEq.trans hpeer (BEq.symm hotherPeer)
  exact busy.manager.table.eq_of_mem_of_compare_eq hleft hright (Ident.compare_eq_iff_beq.2 hkeys)

/-- While no stop has yet to empty the table, a node is not among its own neighbours. -/
theorem not_contains_self (hsound : busy.Sound) (hdraining : ¬ Manager.Draining busy.pending)
    {session : Session} (hsession : busy.manager.session = some session) :
    busy.manager.table.contains session.node = false := by
  rw [SortedMap.contains_eq_isSome]
  cases hget : busy.manager.table.get? session.node with
  | none => rfl
  | some serial =>
    obtain ⟨link, hlink, hpeer⟩ := hsound.wired.held hget
    obtain ⟨made, hmade, hother⟩ := hsound.sessions.made hlink
    have hlive := (hsound.sessions.live.resolve_left hdraining) hget hlink
    obtain ⟨current, hcurrent, hnumber⟩ := Manager.isLive_iff.1 hlive
    obtain rfl : session = current := Option.some.inj (hsession.symm.trans hcurrent)
    have hfound := hsound.sessions.current hsession
    rw [hnumber] at hfound
    obtain rfl : made = session := Option.some.inj (hmade.symm.trans hfound)
    rw [Ident.compare_eq_iff_beq] at hpeer
    rw [BEq.symm hpeer] at hother
    exact absurd hother (by simp)

/-- After any run the table is what the history says: each neighbour has the link that was accepted
last, unless this very link has left since or a stop has emptied the table, and the links that have
left, or are about to, are those whose read loop has ended or on which a message could not be sent.
Each entry is a link to its key, made by another node than the key, and no two entries are for one
neighbour or one link; serials differ, and no entry is for the node itself, unless the stop of an
earlier session has yet to empty the table. Greetings make a link exactly if the neighbour is
welcome. Whenever the turn comes to a new link, it is accepted exactly if it prevails, and the table
stays as it was if it does not. -/
theorem table_follows_history {settings : Settings} {timing : Timing} {events : List Event}
    (hrun : (idle settings timing).run events = some busy) :
    (∀ peer, busy.manager.table.get? peer = holder peer busy.trace) ∧
    (∀ serial, .left serial ∈ busy.trace ∨ Leaving busy.pending serial ↔
      Departed busy.trace serial) ∧
    (∀ key serial, (key, serial) ∈ busy.manager.table.entries →
      ∃ link session, busy.manager.link? serial = some link ∧ (key == link.peer) = true ∧
        busy.sessions[link.session]? = some session ∧ (key == session.node) = false) ∧
    (∀ left ∈ busy.manager.table.entries, ∀ right ∈ busy.manager.table.entries,
      (left.1 == right.1) = true ∨ left.2 = right.2 → left = right) ∧
    (busy.manager.links.map Link.serial).Nodup ∧
    (¬ Manager.Draining busy.pending → ∀ session, busy.manager.session = some session →
      busy.manager.table.contains session.node = false) ∧
    (∀ (now number : Nat) (origin : Origin) (peer : NodeId) (nonce : Int64) (session : Session),
      busy.sessions[number]? = some session →
      (origin.fits session peer = true →
        ∃ link after, busy.step (.greet now number origin peer nonce) = some after ∧
          after.manager.link? link.serial = some link ∧
          link.peer = peer ∧ link.nonce = nonce ∧ link.session = number ∧
          after.manager.table = busy.manager.table ∧
          after.tasks = busy.tasks ++ [⟨some number, [.enter link.serial]⟩]) ∧
      (origin.fits session peer = false →
        busy.step (.greet now number origin peer nonce) = none)) ∧
    (∀ (index serial : Nat) (task : Task) (rest : List Action) (chance : Chance),
      busy.tasks[index]? = some task → task.actions = .enter serial :: rest →
      ∃ link after, busy.manager.link? serial = some link ∧
        busy.step (.work index chance) = some after ∧
        (busy.Prevails chance.now link →
          after.trace = .accepted link.peer serial :: busy.trace ∧
            after.manager.table.get? link.peer = some serial) ∧
        (¬ busy.Prevails chance.now link →
          after.trace = .refused link.peer serial :: busy.trace ∧
            after.manager.table = busy.manager.table)) := by
  have hsound := (sound_idle settings timing).run hrun
  refine ⟨hsound.recorded.table, fun serial => ?_, fun key serial => exists_link_of_mem hsound,
    fun left hleft right hright => entry_unique hsound hleft hright,
    Manager.nodup_serials hsound.wired.numbered,
    fun hdraining session => not_contains_self hsound hdraining,
    fun now _ origin peer nonce _ hsession =>
      step_greet_of_session hsound hsession now origin peer nonce,
    fun index serial task rest chance htask hactions => work_enter hsound htask hactions chance⟩
  exact ⟨hsound.departures.departed, hsound.departures.leaves⟩

/-- A node starts under a name. -/
def startAs (name : String) : Event :=
  .start (Directory.empty.register ⟨name⟩ ⟨"127.0.0.1", 4000⟩) (fun _ => none) ⟨name⟩

/-- A race of two connections to one neighbour: the second one outranks the first and displaces it,
and the read loop of the first one ends after that. -/
def displacement : List Event := [
  startAs "a",
  .greet 0 0 .accepted ⟨"b"⟩ 5, .work 0 {},
  .greet 0 0 (.dialed ⟨"B"⟩) ⟨"b"⟩ 9, .work 1 {},
  .work 1 {}, .work 1 {}, .work 0 { reading := .cancellation }, .work 0 {}]

/-- The displaced link leaves, and its replacement stays. -/
theorem displacement_keeps_replacement :
    ∃ busy, (idle {} {}).run displacement = some busy ∧
      .left 1 ∈ busy.trace ∧ busy.manager.table.get? ⟨"B"⟩ = some 2 := by
  have hholder : ((idle {} {}).run displacement).map
      (fun busy => (holder ⟨"B"⟩ busy.trace, busy.trace.any fun
        | .left serial => serial == 1
        | _ => false)) = some (some 2, true) := by
    decide +kernel
  obtain ⟨busy, hrun, hbusy⟩ := Option.map_eq_some_iff.1 hholder
  obtain ⟨hlast, hleft⟩ := Prod.mk.inj hbusy
  refine ⟨busy, hrun, ?_, ?_⟩
  · obtain ⟨mark, hmark, hserial⟩ := List.any_eq_true.1 hleft
    cases mark <;> simp_all
  · rw [(table_follows_history hrun).1, hlast]

/-- What a run ends in can be worked out together with the session that goes on there. -/
theorem exists_session_of_run {α : Type} (events : List Event) (ask : BusyManager → Session → α)
    {answer : α}
    (hanswer : ((idle {} {}).run events).bind
      (fun busy => busy.manager.session.map (ask busy)) = some answer) :
    ∃ busy session, (idle {} {}).run events = some busy ∧
      busy.manager.session = some session ∧ ask busy session = answer := by
  obtain ⟨busy, hrun, hmap⟩ := Option.bind_eq_some_iff.1 hanswer
  obtain ⟨session, hsession, hasked⟩ := Option.map_eq_some_iff.1 hmap
  exact ⟨busy, session, hrun, hsession, hasked⟩

/-- A node is stopped and started again under the name of its neighbour, and the stop has not come
to emptying the table. -/
def restartAsNeighbor : List Event := [
  startAs "a", .greet 0 0 .accepted ⟨"b"⟩ 5, .work 0 {}, .stop, startAs "B"]

/-- Until the stop comes to it, the link of the earlier session makes the renamed node its own
neighbour. And where a session is going on and a neighbour has no link, greetings of this neighbour
are dropped all the same if another one was dialed. -/
theorem restartAsNeighbor_lists_self :
    (∃ busy session, (idle {} {}).run restartAsNeighbor = some busy ∧
      busy.manager.session = some session ∧
      busy.manager.table.contains session.node = true) ∧
    ∃ busy session, (idle {} {}).run [startAs "a"] = some busy ∧
      busy.manager.session = some session ∧ busy.manager.table.get? ⟨"r"⟩ = none ∧
      (busy.manager.welcome 0 session (.dialed ⟨"q"⟩) ⟨"r"⟩ 5).isNone = true := by
  constructor
  · exact exists_session_of_run restartAsNeighbor
      (fun busy session => busy.manager.table.contains session.node) (by decide +kernel)
  · have hgreeting : ((idle {} {}).run [startAs "a"]).bind (fun busy =>
        busy.manager.session.map fun session => (busy.manager.table.get? ⟨"r"⟩,
          (busy.manager.welcome 0 session (.dialed ⟨"q"⟩) ⟨"r"⟩ 5).isNone)) =
          some (none, true) := by
      decide +kernel
    obtain ⟨busy, session, hrun, hsession, hasked⟩ := exists_session_of_run _ _ hgreeting
    obtain ⟨hunlinked, hdropped⟩ := Prod.mk.inj hasked
    exact ⟨busy, session, hrun, hsession, hunlinked, hdropped⟩

end RegionGossip.BusyManager
