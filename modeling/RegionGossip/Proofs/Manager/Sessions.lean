import RegionGossip.Proofs.Manager.History

/-!
# Links belong to sessions

Sessions are numbered in the order in which they are opened, and a link leads from the node of its
session to another one. What the table holds was made in the session that is going on, unless a stop
has not yet come to emptying it; so a node is never its own neighbour.
-/

namespace RegionGossip

/-- Only another node fits a connection. -/
theorem Origin.ne_of_fits {session : Session} {peer : NodeId} {origin : Origin}
    (hfits : origin.fits session peer = true) : (peer == session.node) = false := by
  cases origin with
  | accepted => simpa [fits, welcomes] using hfits
  | dialed wanted =>
    obtain ⟨hpeer, hwanted⟩ : (peer == wanted) = true ∧ (wanted == session.node) = false := by
      simpa [fits, welcomes] using hfits
    rw [BEq.congr_left hpeer, hwanted]

namespace Manager

/-- A stop has not yet come to emptying the table. -/
def Draining (pending : List Action) : Prop := ∃ number, Action.drain number ∈ pending

/-- What a manager has to do with its sessions. -/
structure InSession (manager : Manager) (sessions : List Session) (pending : List Action) :
    Prop where
  count : manager.sessionCount = sessions.length
  numbered : ∀ {number : Nat} {session : Session}, sessions[number]? = some session →
    session.number = number
  current : ∀ {session : Session}, manager.session = some session →
    sessions[session.number]? = some session
  made : ∀ {serial link}, manager.link? serial = some link →
    ∃ session, sessions[link.session]? = some session ∧ (link.peer == session.node) = false
  live : Draining pending ∨ ∀ {peer serial link}, manager.table.get? peer = some serial →
    manager.link? serial = some link → manager.isLive link.session = true

/-- A link that is taken into the table belongs to the session that is going on. -/
theorem isLive_of_accepts {manager : Manager} {now : Nat} {link : Link}
    (haccepts : manager.accepts now link = true) : manager.isLive link.session = true := by
  rw [accepts, Bool.and_eq_true] at haccepts
  exact haccepts.1

/-- A session that is going on has its own number. -/
theorem isLive_iff {manager : Manager} {number : Nat} :
    manager.isLive number = true ↔ ∃ session, manager.session = some session ∧
      session.number = number := by
  rw [isLive]
  cases manager.session <;> simp

namespace InSession

variable {manager after : Manager} {sessions : List Session} {pending : List Action}

/-- Links that are what they were belong to the sessions that they belonged to. -/
theorem made_of_sameLinks (hsessions : InSession manager sessions pending)
    (hsame : SameLinks manager after) {serial : Nat} {link : Link}
    (hlink : after.link? serial = some link) :
    ∃ session, sessions[link.session]? = some session ∧ (link.peer == session.node) = false := by
  obtain ⟨old, hold, hidentity⟩ := hsame.exists_before hlink
  obtain ⟨session, hsession, hother⟩ := hsessions.made hold
  refine ⟨session, ?_, ?_⟩
  · rwa [← Link.session_eq_of_identity hidentity]
  · rwa [← Link.peer_eq_of_identity hidentity]

/-- An action leaves the sessions in order. -/
theorem perform {front back : List Action} {action : Action} {chance : Chance} {outcome : Outcome}
    (hwired : Wired manager (front ++ action :: back))
    (hsessions : InSession manager sessions (front ++ action :: back))
    (hperform : manager.perform chance action = some outcome) :
    InSession outcome.manager sessions (front ++ (outcome.next ++ back)) := by
  have hcontinues := continues_perform hperform
  have hlive (number : Nat) : outcome.manager.isLive number = manager.isLive number := by
    rw [isLive, hcontinues.session, isLive]
  refine ⟨hcontinues.sessionCount.trans hsessions.count, hsessions.numbered,
    fun {session} hsession => hsessions.current (hcontinues.session ▸ hsession),
    fun {serial link} hlink => hsessions.made_of_sameLinks hcontinues.links hlink, ?_⟩
  · rcases hsessions.live with ⟨number, hdrain⟩ | hsettled
    · by_cases haction : action = .drain number
      · -- the table is empty now
        subst haction
        obtain rfl := Option.some.inj hperform
        exact .inr fun {peer serial link} hget _ => absurd hget (by simp)
      · exact .inl ⟨number, mem_pending_of_ne hdrain (Ne.symm haction)⟩
    · refine .inr fun {peer serial link} hget hlink => ?_
      obtain ⟨old, hold, hidentity⟩ := hcontinues.links.exists_before hlink
      rw [hlive, ← Link.session_eq_of_identity hidentity]
      rcases hwired.get?_perform hperform hget with hbefore | ⟨rfl, entered, hentered, haccepts, -⟩
      · exact hsettled hbefore hold
      · obtain rfl : entered = old := Option.some.inj (hentered.symm.trans hold)
        exact isLive_of_accepts haccepts

/-- Events that leave the session, the table and the identities of links alone leave the sessions
in order. -/
theorem extend (hsessions : InSession manager sessions pending) (more : List Action)
    (hsame : SameLinks manager after) (htable : after.table = manager.table)
    (hsession : after.session = manager.session)
    (hcount : after.sessionCount = manager.sessionCount) :
    InSession after sessions (pending ++ more) := by
  refine ⟨hcount.trans hsessions.count, hsessions.numbered,
    fun {session} h => hsessions.current (hsession ▸ h),
    fun {serial link} hlink => hsessions.made_of_sameLinks hsame hlink, ?_⟩
  · rcases hsessions.live with ⟨number, hdrain⟩ | hsettled
    · exact .inl ⟨number, List.mem_append_left _ hdrain⟩
    · refine .inr fun {peer serial link} hget hlink => ?_
      obtain ⟨old, hold, hidentity⟩ := hsame.exists_before hlink
      have hlive := hsettled (htable ▸ hget) hold
      rwa [Link.session_eq_of_identity hidentity, isLive, ← hsession, ← isLive] at hlive

/-- Events that add nothing to the pending actions. -/
theorem keep (hsessions : InSession manager sessions pending) (hsame : SameLinks manager after)
    (htable : after.table = manager.table) (hsession : after.session = manager.session)
    (hcount : after.sessionCount = manager.sessionCount) : InSession after sessions pending := by
  have hextended := hsessions.extend [] hsame htable hsession hcount
  rwa [List.append_nil] at hextended

/-- A start opens a session with a number of its own. -/
theorem opened (hsessions : InSession manager sessions pending)
    {session : Session} (hnone : manager.session = none)
    (hnumber : session.number = manager.sessionCount) :
    InSession (manager.opened session) (sessions ++ [session]) pending := by
  have hlength : session.number = sessions.length := hnumber.trans hsessions.count
  refine ⟨?_, fun {number found} hfound => ?_, fun {found} hfound => ?_,
    fun {serial link} hlink => ?_, ?_⟩
  · show manager.sessionCount + 1 = _
    rw [hsessions.count, List.length_append, List.length_singleton]
  · rw [List.getElem?_append] at hfound
    split at hfound
    · exact hsessions.numbered hfound
    · rename_i hlast
      have hindex : number - sessions.length = 0 := by
        have hbound := (List.getElem?_eq_some_iff.1 hfound).1
        simp at hbound
        omega
      rw [hindex] at hfound
      obtain rfl : session = found := by simpa using hfound
      omega
  · obtain rfl : session = found := Option.some.inj hfound
    rw [hlength, List.getElem?_concat_length]
  · obtain ⟨found, hfound, hother⟩ := hsessions.made hlink
    have hbound := (List.getElem?_eq_some_iff.1 hfound).1
    exact ⟨found, by rwa [List.getElem?_append_left hbound], hother⟩
  · rcases hsessions.live with hdraining | hsettled
    · exact .inl hdraining
    · -- without a session there was nothing in the table
      refine .inr fun {peer serial link} hget hlink => ?_
      obtain ⟨number, hnumber⟩ := isLive_iff.1 (hsettled hget hlink)
      rw [hnone] at hnumber
      exact absurd hnumber.1 (by simp)

/-- A stop leaves the table to be emptied. -/
theorem halted (hsessions : InSession manager sessions pending) (session : Session) :
    InSession (manager.halted session) sessions (pending ++ [.drain session.number]) := by
  have hended : (manager.halted session).session = none := rfl
  refine ⟨hsessions.count, hsessions.numbered, fun {found} hfound => ?_,
    fun {serial link} hlink => ?_, .inl ⟨session.number, by simp⟩⟩
  · rw [hended] at hfound
    exact absurd hfound (by simp)
  · exact hsessions.made_of_sameLinks (sameLinks_halted manager session) hlink

/-- A new link belongs to its session. -/
theorem addLink (hwired : Wired manager pending) (hsessions : InSession manager sessions pending)
    {link : Link} {session : Session} (more : List Action)
    (hserial : link.serial = manager.nextSerial)
    (hsession : sessions[link.session]? = some session)
    (hother : (link.peer == session.node) = false) :
    InSession (manager.addLink link) sessions (pending ++ more) := by
  have hnew : manager.link? link.serial = none := hserial ▸ link?_nextSerial hwired.numbered
  refine ⟨hsessions.count, hsessions.numbered, hsessions.current,
    fun {serial found} hfound => ?_, ?_⟩
  · rw [link?_addLink hnew] at hfound
    split at hfound
    · obtain rfl := Option.some.inj hfound
      exact ⟨session, hsession, hother⟩
    · exact hsessions.made hfound
  · rcases hsessions.live with ⟨number, hdrain⟩ | hsettled
    · exact .inl ⟨number, List.mem_append_left _ hdrain⟩
    · refine .inr fun {peer serial found} hget hfound => ?_
      obtain ⟨old, hold, -⟩ := hwired.held hget
      rw [link?_addLink hnew, if_neg] at hfound
      · exact hsettled hget hfound
      · rintro rfl
        rw [hnew] at hold
        exact absurd hold (by simp)

end InSession

end Manager

end RegionGossip
