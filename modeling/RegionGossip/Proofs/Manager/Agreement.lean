import RegionGossip.Proofs.Manager.Contest

/-!
# Two nodes agree on one connection

Two nodes may be connected more than once. Each decides for itself which of the connections stays,
and what one of them closes reaches the other at any later time. Both rank the connections in the
same way, so the connection of greatest rank wins on both sides in whatever order the links are made,
entered, displaced, closed and read; and when everything is done that there is to do, it is the only
one that is left.
-/

namespace RegionGossip

/-- Two nodes that are about to be connected, and the connection of greatest rank. -/
structure Meeting where
  connections : List Pair.Connection
  session : Party → Session
  best : Nat
  outranks : ∀ party index rank top, index ≠ best →
    (connections.map (·.rank party))[index]? = some rank →
    (connections.map (·.rank party))[best]? = some top → rank < top

/-- What one of the two nodes has to decide. -/
def Meeting.contest (meeting : Meeting) (party : Party) : Contest :=
  ⟨meeting.session party, (meeting.session party.other).node,
    meeting.connections.map (·.rank party), meeting.best, meeting.outranks party⟩

/-- The rank of a connection is the same at both of its ends. -/
theorem Pair.Connection.rank_eq (connection : Pair.Connection) (party : Party) :
    connection.rank party = connection.rank .first := by
  cases party with
  | first => rfl
  | second => exact linkNonce_comm ..

/-- The greatest of several ranks that differ from each other is greater than all others. -/
theorem lt_of_nodup_of_le {ranks : List Int64} (hdistinct : ranks.Nodup) {index best : Nat}
    {rank top : Int64} (hne : index ≠ best) (hrank : ranks[index]? = some rank)
    (htop : ranks[best]? = some top) (hgreatest : rank ≤ top) : rank < top := by
  refine Int64.lt_of_le_of_ne hgreatest ?_
  rintro rfl
  obtain ⟨hindex, -⟩ := List.getElem?_eq_some_iff.1 hrank
  exact hne ((List.getElem?_inj hindex hdistinct).1 (hrank.trans htop.symm))

namespace Pair

/-- Two running nodes, neither of which has a link to the other or asks for one. -/
structure Strangers (pair : Pair) (session : Party → Session) : Prop where
  reached : ∀ party, ∃ settings timing events,
    (BusyManager.idle settings timing).run events = some (pair.node party)
  running : ∀ party, (pair.node party).manager.session = some (session party)
  calm : ∀ party, ¬ Manager.Draining (pair.node party).pending
  absent : ∀ party, (pair.node party).manager.table.get? (session party.other).node = none
  unasked : ∀ party serial link, .enter serial ∈ (pair.node party).pending →
    (pair.node party).manager.link? serial = some link →
    (link.peer == (session party.other).node) = false
  unmade : ∀ party index, pair.serial party index = none

/-- How a meeting stands. -/
structure Follows (pair : Pair) (meeting : Meeting) : Prop where
  connections : pair.connections = meeting.connections
  contends : ∀ party, (pair.node party).Contends (meeting.contest party) (pair.serial party)

/-- Strangers meet. -/
theorem Strangers.follows {pair : Pair} {meeting : Meeting}
    (hstrangers : pair.Strangers meeting.session)
    (hconnections : pair.connections = meeting.connections) : pair.Follows meeting := by
  refine ⟨hconnections, fun party => ?_⟩
  obtain ⟨settings, timing, events, hrun⟩ := hstrangers.reached party
  have hunmade : ∀ {index serial}, pair.serial party index ≠ some serial := by
    intro index serial hmade
    rw [hstrangers.unmade party index] at hmade
    exact absurd hmade (by simp)
  refine ⟨(BusyManager.sound_idle settings timing).run hrun, hstrangers.running party,
    hstrangers.calm party, fun hmade => absurd hmade hunmade, fun hmade => absurd hmade hunmade,
    fun {serial} hget => ?_, fun {serial link} henter hlink hpeer => ?_,
    fun hmade => absurd hmade hunmade⟩
  · have habsent := hstrangers.absent party
    exact absurd (habsent.symm.trans hget) (by simp)
  · have hother := hstrangers.unasked party serial link henter hlink
    exact absurd (hother.symm.trans hpeer) (by simp)

namespace Follows

variable {pair after : Pair} {meeting : Meeting}

/-- Ends of connections have their places. -/
theorem lt_length (hfollows : pair.Follows meeting) {party : Party} {index serial : Nat}
    (hend : pair.serial party index = some serial) : index < pair.connections.length := by
  obtain ⟨link, -, -, hrank, -⟩ := (hfollows.contends party).made hend
  rw [hfollows.connections]
  simpa [Meeting.contest] using (List.getElem?_eq_some_iff.1 hrank).1

/-- A link is the end of a connection if it was made of it. -/
theorem isEnd_of_serial (hfollows : pair.Follows meeting) {party : Party} {index serial : Nat}
    (hend : pair.serial party index = some serial) : pair.isEnd party serial = true := by
  rw [isEnd, List.any_eq_true]
  exact ⟨index, List.mem_range.2 (hfollows.lt_length hend), by simp [hend]⟩

/-- Nothing has happened at either end of the connection of greatest rank. -/
theorem untouched_best (hfollows : pair.Follows meeting) {party : Party} {link : Link}
    (hlink : pair.end? party meeting.best = some link) : link.Untouched := by
  obtain ⟨serial, hserial, hfound⟩ := Option.bind_eq_some_iff.1 hlink
  exact ((hfollows.contends party).kept hserial).untouched link hfound

/-- Neither of the two has closed its end of the connection of greatest rank. -/
theorem isClosed_best (hfollows : pair.Follows meeting) : pair.isClosed meeting.best = false := by
  have hopen (party : Party) : (pair.end? party meeting.best).any Link.cancelled = false := by
    cases hlink : pair.end? party meeting.best with
    | none => rfl
    | some link => exact (hfollows.untouched_best hlink).cancelled
  rw [isClosed, hopen, hopen, Bool.false_or]

/-- A change at one node leaves the meeting as it stands, if it leaves the contest of that node as it
stands. -/
theorem of_party (hfollows : pair.Follows meeting) (party : Party)
    (hconnections : after.connections = pair.connections)
    (hnode : ∀ other, other ≠ party → after.node other = pair.node other)
    (hserial : ∀ other, other ≠ party → after.serial other = pair.serial other)
    (hcontends : (after.node party).Contends (meeting.contest party) (after.serial party)) :
    after.Follows meeting := by
  refine ⟨hconnections.trans hfollows.connections, fun other => ?_⟩
  by_cases hparty : other = party
  · rw [hparty]
    exact hcontends
  · rw [hnode other hparty, hserial other hparty]
    exact hfollows.contends other

/-- An exchange of greetings leaves the meeting as it stands. -/
theorem greet {party : Party} {index now : Nat} (hfollows : pair.Follows meeting)
    (hstep : pair.greet party index now = some after) : after.Follows meeting := by
  simp only [Pair.greet, Option.bind_eq_bind, Option.bind_eq_some_iff] at hstep
  obtain ⟨connection, hconnection, session, hsession, peer, hpeer, hmade⟩ := hstep
  split at hmade
  · rename_i hunmade
    obtain ⟨greeted, hgreeted, hafter⟩ := Option.bind_eq_some_iff.1 hmade
    obtain rfl := Option.some.inj hafter
    have hcontends := hfollows.contends party
    have hfar := (hfollows.contends party.other).session
    obtain rfl : session = meeting.session party :=
      Option.some.inj (hsession.symm.trans hcontends.session)
    obtain rfl : (meeting.session party.other).node = peer := by
      rw [Manager.self?, hfar, Option.map_some] at hpeer
      exact Option.some.inj hpeer
    have hsame : ((meeting.session party.other).node == (meeting.session party.other).node) = true :=
      BEq.rfl
    refine hfollows.of_party party rfl (fun other hother => if_neg hother) (fun other hother => ?_) ?_
    · funext place
      exact if_neg fun h => hother h.1
    · show BusyManager.Contends (if party = party then greeted else pair.node party) _ _
      rw [if_pos rfl]
      refine hcontends.greet hgreeted (fun {place serial} hplace => ?_) (fun place => ?_)
        (fun {left right} hleft hright => ?_) fun _ => ⟨index, if_pos ⟨rfl, rfl⟩⟩
      · refine (if_neg fun h => ?_).trans hplace
        rw [h.2, hunmade] at hplace
        exact absurd hplace (by simp)
      · by_cases hplace : place = index
        · refine .inr ⟨if_pos ⟨rfl, hplace⟩, ?_, rfl, hsame⟩
          show (meeting.connections.map (·.rank party))[place]? = _
          rw [hplace, List.getElem?_map, ← hfollows.connections, hconnection, Option.map_some]
        · exact .inl (if_neg fun h => hplace h.2)
      · -- a serial that is not in use yet belongs to the new end alone
        have hindex : ∀ place, (if party = party ∧ place = index then
            some (pair.node party).manager.nextSerial else pair.serial party place) =
              some (pair.node party).manager.nextSerial → place = index := by
          intro place hplace
          by_cases hsame : place = index
          · exact hsame
          · rw [if_neg fun h => hsame h.2] at hplace
            obtain ⟨link, hlink, -⟩ := hcontends.made hplace
            rw [Manager.link?_nextSerial hcontends.sound.wired.numbered] at hlink
            exact absurd hlink (by simp)
        exact (hindex left hleft).trans (hindex right hright).symm
  · simp at hmade

/-- Bytes that are carried leave the meeting as it stands. -/
theorem carry {party : Party} {index count : Nat} (hfollows : pair.Follows meeting)
    (hstep : pair.carry party index count = some after) : after.Follows meeting := by
  simp only [Pair.carry, Option.bind_eq_bind, Option.bind_eq_some_iff] at hstep
  obtain ⟨serial, hserial, far, hfar, carried, hcarried, hafter⟩ := hstep
  obtain rfl := Option.some.inj hafter
  refine hfollows.of_party party rfl (fun other hother => if_neg hother) (fun _ _ => rfl) ?_
  show BusyManager.Contends (if party = party then carried else pair.node party) _ _
  rw [if_pos rfl]
  have hcontends := hfollows.contends party
  refine hcontends.arrive hcarried fun hbest => ?_
  obtain rfl : meeting.best = index := hcontends.apart hbest hserial
  have huntouched := hfollows.untouched_best hfar
  simp [huntouched.sent, huntouched.writable]

/-- What a node does alone leaves the meeting as it stands. -/
theorem alone {party : Party} {event : Event} {busy : BusyManager}
    (hfollows : pair.Follows meeting) (hallows : pair.allows party event = true)
    (hstep : (pair.node party).step event = some busy) :
    (pair.setNode party busy).Follows meeting := by
  refine hfollows.of_party party rfl (fun other hother => if_neg hother) (fun _ _ => rfl) ?_
  show BusyManager.Contends (if party = party then busy else pair.node party) _ _
  rw [if_pos rfl]
  have hcontends := hfollows.contends party
  cases event with
  | start | stop | broadcast => simp [allows] at hallows
  | greet now number origin peer nonce =>
    have hfar : (pair.node party.other).manager.session = some (meeting.session party.other) :=
      (hfollows.contends party.other).session
    have hother : (peer == (meeting.session party.other).node) = false := by
      simpa [allows, Manager.self?, hfar] using hallows
    refine hcontends.greet hstep id (fun place => .inl rfl) (fun {left right} hleft hright =>
      hcontends.apart hleft hright) fun hpeer => ?_
    exact absurd (hother.symm.trans hpeer) (by simp)
  | arrive serial bytes ended =>
    refine hcontends.arrive hstep fun hbest => ?_
    rw [allows, hfollows.isEnd_of_serial hbest] at hallows
    exact absurd hallows (by simp)
  | reconfigure settings => exact hcontends.reconfigure hstep
  | work index chance =>
    have hpermits : ∀ {action}, ((pair.node party).tasks[index]?.bind (·.actions.head?)) =
        some action → pair.permits party chance action = true := by
      intro action hhead
      rw [allows, hhead] at hallows
      exact hallows
    refine hcontends.work hstep (fun entered link existing place hhead hlink hentry hend => ?_)
      fun serial hbest hhead fault hreading => ?_
    · have hquiet := hpermits hhead
      rw [permits, hlink, Option.bind_some, hentry] at hquiet
      simpa [hfollows.isEnd_of_serial hend] using hquiet
    · have hbreaks := hpermits hhead
      rw [permits, hreading, mayBreak, List.all_eq_true] at hbreaks
      have hclosed := hbreaks meeting.best (List.mem_range.2 (hfollows.lt_length hbest))
      rw [hfollows.isClosed_best] at hclosed
      simp [show pair.serial party meeting.best = some serial from hbest] at hclosed

/-- Every move leaves the meeting as it stands. -/
theorem step {move : Move} (hfollows : pair.Follows meeting)
    (hstep : pair.step move = some after) : after.Follows meeting := by
  cases move with
  | greet party index now => exact hfollows.greet hstep
  | carry party index count => exact hfollows.carry hstep
  | alone party event =>
    simp only [Pair.step] at hstep
    split at hstep
    · rename_i hallows
      obtain ⟨busy, hbusy, rfl⟩ := Option.map_eq_some_iff.1 hstep
      exact hfollows.alone hallows hbusy
    · simp at hstep

/-- Every run leaves the meeting as it stands. -/
theorem run {moves : List Move} (hfollows : pair.Follows meeting)
    (hrun : pair.run moves = some after) : after.Follows meeting := by
  induction moves generalizing pair with
  | nil =>
    obtain rfl := Option.some.inj hrun
    exact hfollows
  | cons move later ih =>
    obtain ⟨next, hstep, hlater⟩ := Option.bind_eq_some_iff.1 hrun
    exact ih (hfollows.step hstep) hlater

end Follows

/-! ## What is kept and what is left -/

/-- Whether a link has come to rest: nothing is left to be done about it, unless it was not closed and
is read on. -/
def isAtRest (link : Link) (pending : List Action) : Bool :=
  pending.all fun action => !action.targets.contains link.serial ||
    match action with
    | .read _ => !link.cancelled
    | _ => false

/-- Whether every end of every connection was made and has come to rest. -/
def isSettled (pair : Pair) : Bool :=
  (List.range pair.connections.length).all fun index => [Party.first, .second].all fun party =>
    (pair.end? party index).any fun link => isAtRest link (pair.node party).pending

/-- What is still to be done about a link that has come to rest. -/
theorem eq_read_of_isAtRest {link : Link} {pending : List Action} {action : Action}
    (hrest : isAtRest link pending = true) (haction : action ∈ pending)
    (htarget : link.serial ∈ action.targets) :
    (∃ serial, action = .read serial) ∧ link.cancelled = false := by
  have hallowed := List.all_eq_true.1 hrest action haction
  rw [List.contains_iff_mem.2 htarget, Bool.not_true, Bool.false_or] at hallowed
  cases action with
  | read serial => exact ⟨⟨serial, rfl⟩, by simpa using hallowed⟩
  | _ => exact absurd hallowed (by simp)

/-- In a settled pair the links of all ends have come to rest. -/
theorem exists_end_of_isSettled {pair : Pair} (hsettled : pair.isSettled = true) (party : Party)
    {index : Nat} (hindex : index < pair.connections.length) :
    ∃ serial link, pair.serial party index = some serial ∧
      (pair.node party).manager.link? serial = some link ∧
      isAtRest link (pair.node party).pending = true := by
  have hends := List.all_eq_true.1 hsettled index (List.mem_range.2 hindex)
  have hparty : party ∈ [Party.first, .second] := by cases party <;> simp
  obtain ⟨link, hlink, hrest⟩ :=
    (Option.any_eq_true _ _).1 (List.all_eq_true.1 hends party hparty)
  obtain ⟨serial, hserial, hfound⟩ := Option.bind_eq_some_iff.1 hlink
  exact ⟨serial, link, hserial, hfound, hrest⟩

/-- A node has made a link of its end of a connection, and the link has asked for its place in the
table. -/
def Registered (pair : Pair) (party : Party) (index serial : Nat) : Prop :=
  pair.serial party index = some serial ∧ .enter serial ∉ (pair.node party).pending

/-- In a settled pair every end is registered. -/
theorem registered_of_isSettled {pair : Pair} (hsettled : pair.isSettled = true) (party : Party)
    {index : Nat} (hindex : index < pair.connections.length) :
    ∃ serial link, pair.Registered party index serial ∧
      (pair.node party).manager.link? serial = some link ∧
      isAtRest link (pair.node party).pending = true := by
  obtain ⟨serial, link, hserial, hlink, hrest⟩ := exists_end_of_isSettled hsettled party hindex
  refine ⟨serial, link, ⟨hserial, fun henter => ?_⟩, hlink, hrest⟩
  have htarget : link.serial ∈ (Action.enter serial).targets := by
    simp [Action.targets, Manager.serial_of_link? hlink]
  obtain ⟨⟨other, hother⟩, -⟩ := eq_read_of_isAtRest hrest henter htarget
  exact absurd hother (by simp)

/-- A node goes on by an event, or not at all, and keeps its ends of connections. -/
theorem step_node {pair after : Pair} {move : Move} (hstep : pair.step move = some after)
    (party : Party) :
    (after.node party = pair.node party ∨
      ∃ event, (pair.node party).step event = some (after.node party)) ∧
      ∀ index serial, pair.serial party index = some serial →
        after.serial party index = some serial := by
  -- what one node does leaves the other one as it is
  have hset : ∀ {acting : Party} {event : Event} {busy : BusyManager},
      (pair.node acting).step event = some busy →
        (pair.setNode acting busy).node party = pair.node party ∨
          ∃ event, (pair.node party).step event = some ((pair.setNode acting busy).node party) := by
    intro acting event busy hbusy
    by_cases hparty : party = acting
    · subst hparty
      exact .inr ⟨event, hbusy.trans (congrArg some (if_pos rfl).symm)⟩
    · exact .inl (if_neg hparty)
  cases move with
  | greet acting place now =>
    simp only [step, greet, Option.bind_eq_bind, Option.bind_eq_some_iff] at hstep
    obtain ⟨connection, -, session, -, peer, -, hmade⟩ := hstep
    split at hmade
    · rename_i hunmade
      obtain ⟨greeted, hgreeted, hafter⟩ := Option.bind_eq_some_iff.1 hmade
      obtain rfl := Option.some.inj hafter
      refine ⟨hset hgreeted, fun index serial hserial => (if_neg fun h => ?_).trans hserial⟩
      rw [h.1, h.2, hunmade] at hserial
      exact absurd hserial (by simp)
    · simp at hmade
  | carry acting place count =>
    simp only [step, carry, Option.bind_eq_bind, Option.bind_eq_some_iff] at hstep
    obtain ⟨serial, -, far, -, carried, hcarried, hafter⟩ := hstep
    obtain rfl := Option.some.inj hafter
    exact ⟨hset hcarried, fun _ _ => id⟩
  | alone acting event =>
    simp only [step] at hstep
    split at hstep
    · obtain ⟨busy, hbusy, rfl⟩ := Option.map_eq_some_iff.1 hstep
      exact ⟨hset hbusy, fun _ _ => id⟩
    · simp at hstep

namespace Follows

variable {pair after : Pair} {meeting : Meeting}

/-- A link that is registered stays registered. -/
theorem registered_run {party : Party} {index serial : Nat} {moves : List Move}
    (hfollows : pair.Follows meeting) (hregistered : pair.Registered party index serial)
    (hrun : pair.run moves = some after) : after.Registered party index serial := by
  induction moves generalizing pair with
  | nil =>
    obtain rfl := Option.some.inj hrun
    exact hregistered
  | cons move later ih =>
    obtain ⟨next, hstep, hlater⟩ := Option.bind_eq_some_iff.1 hrun
    obtain ⟨hserial, hasked⟩ := hregistered
    obtain ⟨hnode, hserials⟩ := step_node hstep party
    refine ih (hfollows.step hstep) ⟨hserials index serial hserial, ?_⟩ hlater
    rcases hnode with hsame | ⟨event, hevent⟩
    · rwa [hsame]
    · obtain ⟨link, hlink, -⟩ := (hfollows.contends party).made hserial
      exact BusyManager.enter_not_mem_step (hfollows.contends party).sound hevent
        (by simp [hlink]) hasked

/-- The table of a node holds the link of greatest rank once it is registered. -/
theorem get?_best (hfollows : pair.Follows meeting) {party : Party} {serial : Nat}
    (hregistered : pair.Registered party meeting.best serial) :
    (pair.node party).manager.table.get? (meeting.session party.other).node = some serial := by
  have hcontends := hfollows.contends party
  obtain ⟨link, hlink, hpeer, -⟩ := hcontends.made hregistered.1
  obtain ⟨-, hget⟩ :=
    (hcontends.kept hregistered.1).placed_of_not_mem hregistered.2 hlink
  rwa [BusyManager.Contends.get?_peer hpeer] at hget

/-- What is left of a connection that has lost, when everything is settled. -/
theorem terminated_of_isSettled (hfollows : pair.Follows meeting) {party : Party}
    {index serial best : Nat} {link : Link} (hne : index ≠ meeting.best)
    (hserial : pair.serial party index = some serial)
    (hlink : (pair.node party).manager.link? serial = some link)
    (hrest : isAtRest link (pair.node party).pending = true)
    (hbest : pair.Registered party meeting.best best) : link.state = .terminated := by
  have hcontends := hfollows.contends party
  have htended := hcontends.sound.tended
  obtain rfl := Manager.serial_of_link? hlink
  rcases htended.tended hlink with hterminated | ⟨action, haction, htends⟩
  · exact hterminated
  · obtain ⟨⟨read, rfl⟩, hopen⟩ :=
      eq_read_of_isAtRest hrest haction (Action.mem_targets_of_tends htends)
    rcases htended.accounted hlink with hterminated | hcancelled | henter | hget | ⟨notify, hclose⟩
    · exact hterminated
    · rw [hopen] at hcancelled
      exact absurd hcancelled (by simp)
    · obtain ⟨⟨other, hother⟩, -⟩ := eq_read_of_isAtRest hrest henter (by simp [Action.targets])
      exact absurd hother (by simp)
    · -- its place is taken
      obtain ⟨found, hfound, hpeer, -⟩ := hcontends.made hserial
      obtain rfl : found = link := Option.some.inj (hfound.symm.trans hlink)
      rw [BusyManager.Contends.get?_peer hpeer] at hget
      have hsame : best = found.serial :=
        Option.some.inj ((hfollows.get?_best hbest).symm.trans hget)
      exact absurd (hcontends.apart hserial (hsame ▸ hbest.1)) hne
    · obtain ⟨⟨other, hother⟩, -⟩ := eq_read_of_isAtRest hrest hclose (by simp [Action.targets])
      exact absurd hother (by simp)

end Follows

/-- The meeting of two nodes that are connected by connections of different ranks. -/
def meeting {connections : List Connection} {best : Nat} {winner : Connection}
    (session : Party → Session) (hdistinct : (connections.map (·.rank .first)).Nodup)
    (hwinner : connections[best]? = some winner)
    (hgreatest : ∀ connection ∈ connections, connection.rank .first ≤ winner.rank .first) :
    Meeting where
  connections := connections
  session := session
  best := best
  outranks := by
    intro party index rank top hne hrank htop
    have hranks : connections.map (·.rank party) = connections.map (·.rank .first) :=
      List.map_congr_left fun connection _ => connection.rank_eq party
    rw [hranks] at hrank htop
    refine lt_of_nodup_of_le hdistinct hne hrank htop ?_
    obtain ⟨connection, hconnection, rfl⟩ := List.mem_map.1 (List.mem_of_getElem? hrank)
    rw [List.getElem?_map, hwinner] at htop
    rw [← Option.some.inj htop]
    exact hgreatest connection hconnection

/-- Two running nodes that are connected by any connections of different ranks, dialed from either
side, agree on the one of greatest rank, in whatever order the links are made, ask for their places,
are displaced, turned down, closed and read, and their bytes are carried. Once a node has registered
its end, that link is what its table holds for the other node in every later state, and neither of
the two ever closes its end. When everything is settled, it is the only link to the other node that
either table holds, and the links of all other connections are terminated on both sides. -/
theorem both_keep_greatest {pair mid after : Pair} {session : Party → Session} {best : Nat}
    {winner : Connection} {earlier later : List Move} (hstrangers : pair.Strangers session)
    (hdistinct : (pair.connections.map (·.rank .first)).Nodup)
    (hwinner : pair.connections[best]? = some winner)
    (hgreatest : ∀ connection ∈ pair.connections, connection.rank .first ≤ winner.rank .first)
    (hearlier : pair.run earlier = some mid) (hlater : mid.run later = some after) :
    (∀ party serial, mid.Registered party best serial → after.Registered party best serial ∧
      (after.node party).manager.table.get? (session party.other).node = some serial) ∧
    (∀ party link, after.end? party best = some link →
      link.nonce = winner.rank .first ∧ link.cancelled = false ∧ link.writable = true) ∧
    (after.isSettled = true → ∀ party,
      (∃ serial, after.Registered party best serial ∧
        (after.node party).manager.table.get? (session party.other).node = some serial ∧
        ∀ key held, (key, held) ∈ (after.node party).manager.table.entries →
          (key == (session party.other).node) = true → held = serial) ∧
      ∀ index, index < pair.connections.length → index ≠ best →
        ∃ link, after.end? party index = some link ∧ link.state = .terminated) := by
  let met := meeting session hdistinct hwinner hgreatest
  have hmet : pair.Follows met := Strangers.follows hstrangers rfl
  have hmid := hmet.run hearlier
  have hafter := hmid.run hlater
  have hbest : best < after.connections.length := by
    rw [hafter.connections]
    exact (List.getElem?_eq_some_iff.1 hwinner).1
  refine ⟨fun party serial hregistered => ?_, fun party link hlink => ?_,
    fun hsettled party => ⟨?_, fun index hindex hne => ?_⟩⟩
  · have hstill := hmid.registered_run hregistered hlater
    exact ⟨hstill, hafter.get?_best hstill⟩
  · have huntouched := hafter.untouched_best hlink
    obtain ⟨serial, hserial, hfound⟩ := Option.bind_eq_some_iff.1 hlink
    obtain ⟨known, hknown, -, hrank, -⟩ := (hafter.contends party).made hserial
    obtain rfl : known = link := Option.some.inj (hknown.symm.trans hfound)
    refine ⟨?_, huntouched.cancelled, huntouched.writable⟩
    rw [← winner.rank_eq party]
    simpa [met, meeting, Meeting.contest, hwinner] using hrank.symm
  · obtain ⟨serial, -, hregistered, -⟩ := registered_of_isSettled hsettled party hbest
    have hget := hafter.get?_best hregistered
    refine ⟨serial, hregistered, hget, fun key held hmem hkey => ?_⟩
    have hheld := (after.node party).manager.table.get?_of_mem hmem
    rw [SortedMap.get?_congr _ (Ident.compare_eq_iff_beq.2 hkey)] at hheld
    exact Option.some.inj (hheld.symm.trans hget)
  · obtain ⟨serial, -, hregistered, -⟩ := registered_of_isSettled hsettled party hbest
    obtain ⟨lost, link, ⟨hlost, -⟩, hlink, hrest⟩ := registered_of_isSettled hsettled party
      (show index < after.connections.length by rwa [hafter.connections])
    refine ⟨link, ?_, hafter.terminated_of_isSettled hne hlost hlink hrest hregistered⟩
    rw [end?, hlost, Option.bind_some, hlink]

/-- A node that was just started. -/
def newcomer (name : String) : BusyManager :=
  let session : Session := ⟨0, ⟨name⟩⟩
  ⟨(Manager.idle {} {}).opened session, [session], [], [.started session]⟩

/-- The connection that the first node dials. -/
def firstDial : Connection := ⟨.first, fun party => if party = .first then 7 else 3⟩

/-- The connection that the second node dials. -/
def secondDial : Connection := ⟨.second, fun party => if party = .first then 2 else 9⟩

/-- Two nodes that dial each other at the same time. -/
def dialers : Pair where
  connections := [firstDial, secondDial]
  node
    | .first => newcomer "a"
    | .second => newcomer "b"
  serial _ _ := none
  carried _ _ := 0

/-- Each node registers the connection that it has dialed before the other one, which displaces the
first one at one node and is turned down at the other. -/
def simultaneousDial : List Move := [
  .greet .first 0 0, .greet .second 1 0, .alone .first (.work 0 {}), .alone .second (.work 0 {}),
  .greet .first 1 0, .greet .second 0 0]

/-- What was displaced or turned down is closed and comes to its end. -/
def aftermath : List Move := [
  .alone .first (.work 1 {}), .alone .second (.work 1 {}), .alone .first (.work 1 {}),
  .alone .first (.work 1 {}), .carry .second 0 100, .alone .second (.work 1 {}),
  .alone .second (.work 1 {}), .alone .second (.work 1 {}), .carry .first 0 100,
  .alone .first (.work 0 { reading := .cancellation }), .alone .first (.work 0 {}),
  .alone .first (.work 0 {}), .alone .first (.work 0 {})]

/-- The sessions of two nodes that were just started. -/
def firstSessions : Party → Session
  | .first => ⟨0, ⟨"a"⟩⟩
  | .second => ⟨0, ⟨"b"⟩⟩

/-- Two nodes that were just started are strangers. -/
theorem strangers_dialers : dialers.Strangers firstSessions where
  reached := by
    intro party
    cases party with
    | first =>
      refine ⟨{}, {}, [.start (Directory.empty.register ⟨"a"⟩ ⟨"127.0.0.1", 4000⟩) (fun _ => none)
        ⟨"a"⟩], ?_⟩
      rfl
    | second =>
      refine ⟨{}, {}, [.start (Directory.empty.register ⟨"b"⟩ ⟨"127.0.0.1", 4001⟩) (fun _ => none)
        ⟨"b"⟩], ?_⟩
      rfl
  running := by
    intro party
    cases party <;> rfl
  calm := by
    rintro party ⟨number, hdrain⟩
    cases party <;> exact absurd hdrain List.not_mem_nil
  absent := by
    intro party
    cases party <;> rfl
  unasked := by
    intro party serial link henter
    cases party <;> exact absurd henter List.not_mem_nil
  unmade := by
    intro party index
    rfl

/-- Two nodes that dial each other at the same time end with the connection of greatest rank, and the
other one is terminated on both sides. -/
theorem simultaneousDial_leaves_greatest :
    ∃ mid after, dialers.run simultaneousDial = some mid ∧ mid.run aftermath = some after ∧
      ∀ party, (∃ serial, after.Registered party 1 serial ∧
        (after.node party).manager.table.get? (firstSessions party.other).node = some serial) ∧
          ∃ link, after.end? party 0 = some link ∧ link.state = .terminated := by
  have hrun : ((dialers.run simultaneousDial).bind fun mid => mid.run aftermath).map isSettled =
      some true := by
    decide +kernel
  obtain ⟨after, hruns, hsettled⟩ := Option.map_eq_some_iff.1 hrun
  obtain ⟨mid, hearlier, hlater⟩ := Option.bind_eq_some_iff.1 hruns
  refine ⟨mid, after, hearlier, hlater, fun party => ?_⟩
  have hwinner : dialers.connections[1]? = some secondDial := rfl
  have hdistinct : (dialers.connections.map (·.rank .first)).Nodup := by decide +kernel
  have hgreatest : ∀ connection ∈ dialers.connections,
      connection.rank .first ≤ secondDial.rank .first := by decide +kernel
  obtain ⟨-, -, hleft⟩ := both_keep_greatest strangers_dialers hdistinct hwinner hgreatest
    hearlier hlater
  obtain ⟨⟨serial, hregistered, hget, -⟩, hothers⟩ := hleft hsettled party
  exact ⟨⟨serial, hregistered, hget⟩, hothers 0 (by decide) (by decide)⟩

end Pair

end RegionGossip
