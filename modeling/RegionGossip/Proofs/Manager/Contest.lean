import RegionGossip.Manager.Pair
import RegionGossip.Proofs.Manager.Kept
import RegionGossip.Proofs.Manager.Runs

/-!
# One side of a contest

Several connections lead to one neighbour, and a node makes links of its ends of them, in any order.
Only these links ever ask for the place of the neighbour in the table. The link of the connection of
greatest rank gets the place whenever it asks for it and never yields it again, so it is left alone;
this holds whatever else the tasks of the node do, and in whatever order.
-/

namespace RegionGossip

/-- What a node has to decide: which of its connections to a neighbour stays. -/
structure Contest where
  session : Session
  peer : NodeId
  ranks : List Int64
  /-- The connection of greatest rank. -/
  best : Nat
  outranks : ∀ index rank top, index ≠ best → ranks[index]? = some rank →
    ranks[best]? = some top → rank < top

/-- A link was made of the end of a connection to the neighbour, in the session that is going on. -/
structure Contest.Fits (contest : Contest) (index : Nat) (link : Link) : Prop where
  peer : (link.peer == contest.peer) = true
  rank : contest.ranks[index]? = some link.nonce
  session : link.session = contest.session.number

/-- Links of one identity were made of the same ends. -/
theorem Contest.Fits.of_identity {contest : Contest} {index : Nat} {link found : Link}
    (hfits : contest.Fits index link) (hidentity : found.identity = link.identity) :
    contest.Fits index found := by
  refine ⟨?_, ?_, ?_⟩
  · rw [Link.peer_eq_of_identity hidentity, hfits.peer]
  · rw [Link.nonce_eq_of_identity hidentity, hfits.rank]
  · rw [Link.session_eq_of_identity hidentity, hfits.session]

namespace BusyManager

/-- How a contest stands for a node that has made links of its ends of some connections. -/
structure Contends (busy : BusyManager) (contest : Contest) (ends : Nat → Option Nat) : Prop where
  sound : busy.Sound
  session : busy.manager.session = some contest.session
  calm : ¬ Manager.Draining busy.pending
  made : ∀ {index serial}, ends index = some serial →
    ∃ link, busy.manager.link? serial = some link ∧ contest.Fits index link
  apart : ∀ {left right serial}, ends left = some serial → ends right = some serial → left = right
  entered : ∀ {serial}, busy.manager.table.get? contest.peer = some serial →
    ∃ index, ends index = some serial
  entering : ∀ {serial link}, .enter serial ∈ busy.pending → busy.manager.link? serial = some link →
    (link.peer == contest.peer) = true → ∃ index, ends index = some serial
  kept : ∀ {serial}, ends contest.best = some serial →
    Manager.Kept busy.manager busy.pending serial

namespace Contends

variable {busy after : BusyManager} {contest : Contest} {ends : Nat → Option Nat}

/-- The link of greatest rank outranks the link of any other connection. -/
theorem nonce_lt (hcontends : busy.Contends contest ends) {index serial top : Nat}
    {link winner : Link} (hend : ends index = some serial) (hne : serial ≠ top)
    (hlink : busy.manager.link? serial = some link) (htop : ends contest.best = some top)
    (hwinner : busy.manager.link? top = some winner) : link.nonce < winner.nonce := by
  obtain ⟨found, hfound, -, hrank, -⟩ := hcontends.made hend
  obtain rfl : found = link := Option.some.inj (hfound.symm.trans hlink)
  obtain ⟨best, hbest, -, hgreatest, -⟩ := hcontends.made htop
  obtain rfl : best = winner := Option.some.inj (hbest.symm.trans hwinner)
  refine contest.outranks index _ _ ?_ hrank hgreatest
  rintro rfl
  exact hne (Option.some.inj (hend.symm.trans htop))

/-- What the table holds for the neighbour of a link is found under the neighbour itself. -/
theorem get?_peer {peer : NodeId} (hpeer : (peer == contest.peer) = true) :
    busy.manager.table.get? peer = busy.manager.table.get? contest.peer :=
  busy.manager.table.get?_congr (Ident.compare_eq_iff_beq.2 hpeer)

/-- The link of greatest rank gets its place whenever it asks for it. -/
theorem accepts_best (hcontends : busy.Contends contest ends) {serial : Nat} {link : Link}
    (hbest : ends contest.best = some serial) (henter : .enter serial ∈ busy.pending)
    (hlink : busy.manager.link? serial = some link) (now : Nat) :
    busy.manager.accepts now link = true := by
  obtain ⟨found, hfound, hpeer, -, hsession⟩ := hcontends.made hbest
  obtain rfl : found = link := Option.some.inj (hfound.symm.trans hlink)
  have hlive : busy.manager.isLive found.session = true :=
    Manager.isLive_iff.2 ⟨contest.session, hcontends.session, hsession.symm⟩
  rw [Manager.accepts, hlive, Bool.true_and, Manager.entry?, get?_peer hpeer]
  cases hget : busy.manager.table.get? contest.peer with
  | none => rfl
  | some held =>
    obtain ⟨index, hend⟩ := hcontends.entered hget
    obtain ⟨existing, hexisting, -⟩ := hcontends.made hend
    have hne : held ≠ serial := by
      rintro rfl
      exact (hcontends.sound.wired.fresh henter).absent _ hget
    have hlower := hcontends.nonce_lt hend hne hexisting hbest hlink
    rw [Option.bind_some, hexisting]
    simp [Manager.yields, prefersCandidate, hlower]

/-- The link of greatest rank never loses its place, as long as it does not count as silent for too
long. -/
theorem spares_best (hcontends : busy.Contends contest ends) {serial now : Nat} {action : Action}
    (hbest : ends contest.best = some serial) (haction : action ∈ busy.pending)
    (hheard : ∀ entered link existing index, action = .enter entered →
      busy.manager.link? entered = some link → busy.manager.entry? link.peer = some existing →
      ends index = some existing.serial →
      existing.isStale now busy.manager.staleAfter = false) :
    ¬ busy.manager.Evicts now action serial := by
  rintro (⟨entered, link, rfl, hlink, haccepts, hget⟩ | ⟨session, peer, rfl, -⟩)
  · have hfresh := hcontends.sound.wired.fresh haction
    have hne : entered ≠ serial := by
      rintro rfl
      exact hfresh.absent _ hget
    obtain ⟨winner, hwinner, hpeer, -⟩ := hcontends.made hbest
    have hsame : (link.peer == contest.peer) = true :=
      BEq.trans (Ident.compare_eq_iff_beq.1 (hcontends.sound.wired.compare_peer hget hwinner)) hpeer
    obtain ⟨index, hend⟩ := hcontends.entering haction hlink hsame
    have hlower := hcontends.nonce_lt hend hne hlink hbest hwinner
    have hasked : Action.enter serial ∉ busy.pending := fun henter =>
      (hcontends.sound.wired.fresh henter).absent _ hget
    obtain ⟨hstate, -⟩ := (hcontends.kept hbest).placed_of_not_mem hasked hwinner
    have hentry : busy.manager.entry? link.peer = some winner := by
      rw [Manager.entry?, hget, Option.bind_some, hwinner]
    have hstale := hheard entered link winner contest.best rfl hlink hentry
      (by rw [hbest, Manager.serial_of_link? hwinner])
    have hstays : ¬ winner.nonce < link.nonce := Int64.lt_asymm hlower
    rw [Manager.accepts, hentry, Bool.and_eq_true] at haccepts
    simp [Manager.yields, hstate, hstale, prefersCandidate, hstays] at haccepts
  · exact hcontends.calm ⟨session, haction⟩

/-- A turn of a task leaves the contest as it stands. -/
theorem work {index : Nat} {chance : Chance} (hcontends : busy.Contends contest ends)
    (hstep : busy.step (.work index chance) = some after)
    (hheard : ∀ entered link existing place,
      (busy.tasks[index]?.bind fun task => task.actions.head?) = some (.enter entered) →
      busy.manager.link? entered = some link → busy.manager.entry? link.peer = some existing →
      ends place = some existing.serial →
      existing.isStale chance.now busy.manager.staleAfter = false)
    (hwhole : ∀ serial, ends contest.best = some serial →
      (busy.tasks[index]?.bind fun task => task.actions.head?) = some (.read serial) →
      ∀ fault, chance.reading ≠ .breakdown fault) :
    after.Contends contest ends := by
  have hsound := hcontends.sound.step hstep
  obtain ⟨front, action, back, outcome, hhead, hperform, hpending, hpendingAfter, hmanager, -, -⟩ :=
    step_work hstep
  have hcontinues := Manager.continues_perform hperform
  have haction : action ∈ busy.pending := by simp [hpending]
  have hwired := hcontends.sound.wired
  -- what begins a task was pending before
  have hbegins : ∀ {other : Action}, other.begins = true → other ∈ after.pending →
      other ∈ busy.pending := by
    intro other hother hmem
    rw [hpendingAfter] at hmem
    rw [hpending]
    exact Manager.mem_pending_of_kept (Manager.mem_of_begins hperform hother hmem)
  refine ⟨hsound, ?_, ?_, fun {place serial} hend => ?_, hcontends.apart, fun {serial} hget => ?_,
    fun {serial link} henter hlink hpeer => ?_, fun {serial} hbest => ?_⟩
  · rw [hmanager, hcontinues.session, hcontends.session]
  · rintro ⟨number, hdrain⟩
    exact hcontends.calm ⟨number, hbegins rfl hdrain⟩
  · obtain ⟨link, hlink, hfits⟩ := hcontends.made hend
    obtain ⟨found, hfound, hidentity⟩ := hcontinues.links.exists_after hlink
    rw [hmanager]
    exact ⟨found, hfound, hfits.of_identity hidentity⟩
  · rw [hmanager] at hget
    rcases hwired.get?_perform hperform hget with hbefore | ⟨rfl, link, hlink, -, hcompare⟩
    · exact hcontends.entered hbefore
    · exact hcontends.entering haction hlink (BEq.symm (Ident.compare_eq_iff_beq.1 hcompare))
  · rw [hmanager] at hlink
    obtain ⟨old, hold, hidentity⟩ := hcontinues.links.exists_before hlink
    refine hcontends.entering (hbegins rfl henter) hold ?_
    rw [Link.peer_eq_of_identity hidentity, hpeer]
  · rw [hpending] at hwired
    have hkept := hcontends.kept hbest
    rw [hpending] at hkept
    rw [hmanager, hpendingAfter]
    refine hkept.perform hwired (hcontends.spares_best hbest haction ?_) ?_ ?_ hperform
    · rintro entered link existing place rfl
      exact hheard entered link existing place hhead
    · rintro rfl link hlink
      exact hcontends.accepts_best hbest haction hlink chance.now
    · rintro rfl
      exact hwhole serial hbest hhead

/-- A greeting leaves the contest as it stands, except that a link to the neighbour becomes the end
of a connection. -/
theorem greet {now number : Nat} {origin : Origin} {peer : NodeId} {nonce : Int64}
    {more : Nat → Option Nat} (hcontends : busy.Contends contest ends)
    (hstep : busy.step (.greet now number origin peer nonce) = some after)
    (hkeeps : ∀ {place serial}, ends place = some serial → more place = some serial)
    (hmore : ∀ place, more place = ends place ∨
      (more place = some busy.manager.nextSerial ∧ contest.ranks[place]? = some nonce ∧
        number = contest.session.number ∧ (peer == contest.peer) = true))
    (hapart : ∀ {left right}, more left = some busy.manager.nextSerial →
      more right = some busy.manager.nextSerial → left = right)
    (hcovers : (peer == contest.peer) = true →
      ∃ place, more place = some busy.manager.nextSerial) :
    after.Contends contest more := by
  have hsound := hcontends.sound.step hstep
  obtain ⟨session, hsession, -, rfl, hpending⟩ := step_greet hstep
  have hnumber := hcontends.sound.sessions.numbered hsession
  have hwired := hcontends.sound.wired
  have hunused : busy.manager.link? busy.manager.nextSerial = none :=
    Manager.link?_nextSerial hwired.numbered
  have hlinks (serial : Nat) :
      (busy.manager.addLink (busy.manager.newLink now session peer nonce)).link? serial =
        if serial = busy.manager.nextSerial then
          some (busy.manager.newLink now session peer nonce)
        else busy.manager.link? serial := Manager.link?_addLink hunused serial
  have hnew : (busy.manager.addLink (busy.manager.newLink now session peer nonce)).link?
      busy.manager.nextSerial = some (busy.manager.newLink now session peer nonce) := by
    rw [hlinks, if_pos rfl]
  have hold : ∀ {serial : Nat}, serial ≠ busy.manager.nextSerial →
      (busy.manager.addLink (busy.manager.newLink now session peer nonce)).link? serial =
        busy.manager.link? serial := by
    intro serial hne
    rw [hlinks, if_neg hne]
  have hend : ∀ {place serial : Nat}, ends place = some serial →
      serial ≠ busy.manager.nextSerial := by
    rintro place serial hend rfl
    obtain ⟨link, hlink, -⟩ := hcontends.made hend
    rw [hunused] at hlink
    exact absurd hlink (by simp)
  refine ⟨hsound, hcontends.session, ?_, fun {place serial} hmade => ?_,
    fun {left right serial} hleft hright => ?_, fun {serial} hget => ?_,
    fun {serial link} henter hlink hpeer => ?_, fun {serial} hbest => ?_⟩
  · rintro ⟨drained, hdrain⟩
    rw [hpending] at hdrain
    exact hcontends.calm ⟨drained, by simpa using hdrain⟩
  · rcases hmore place with hsame | ⟨hplace, hrank, hcurrent, hpeer⟩
    · rw [hsame] at hmade
      obtain ⟨link, hlink, hrest⟩ := hcontends.made hmade
      exact ⟨link, by rw [hold (hend hmade), hlink], hrest⟩
    · obtain rfl := Option.some.inj (hplace.symm.trans hmade)
      exact ⟨_, hnew, hpeer, hrank, hnumber.trans hcurrent⟩
  · by_cases hserial : serial = busy.manager.nextSerial
    · exact hapart (hserial ▸ hleft) (hserial ▸ hright)
    · have hbefore : ∀ {place}, more place = some serial → ends place = some serial := by
        intro place hplace
        rcases hmore place with hsame | ⟨hnext, -⟩
        · rw [← hsame, hplace]
        · exact absurd (Option.some.inj (hplace.symm.trans hnext)) hserial
      exact hcontends.apart (hbefore hleft) (hbefore hright)
  · obtain ⟨place, hplace⟩ := hcontends.entered hget
    exact ⟨place, hkeeps hplace⟩
  · rw [hpending, List.mem_append] at henter
    rcases henter with hbefore | hadded
    · have hne : serial ≠ busy.manager.nextSerial := by
        rintro rfl
        have hknown := hwired.known _ hbefore busy.manager.nextSerial (by simp [Action.targets])
        simp [hunused] at hknown
      obtain ⟨place, hplace⟩ := hcontends.entering hbefore (hold hne ▸ hlink) hpeer
      exact ⟨place, hkeeps hplace⟩
    · obtain rfl : serial = busy.manager.nextSerial := by simpa using hadded
      obtain rfl := Option.some.inj (hnew.symm.trans hlink)
      exact hcovers hpeer
  · rw [hpending]
    by_cases hserial : serial = busy.manager.nextSerial
    · subst hserial
      exact .addLink hwired rfl ⟨rfl, rfl, rfl, rfl, rfl⟩
    · have hbefore : ends contest.best = some serial := by
        rcases hmore contest.best with hsame | ⟨hnext, -⟩
        · rw [← hsame, hbest]
        · exact absurd (Option.some.inj (hbest.symm.trans hnext)) hserial
      exact (hcontends.kept hbefore).extend (hold hserial) rfl (by simpa [Action.targets])

/-- An event that changes no link in what it is, neither the table nor the session and nothing that
is pending leaves the contest as it stands, if it leaves the link of greatest rank alone. -/
theorem keep (hcontends : busy.Contends contest ends) (hsound : after.Sound)
    (hsame : Manager.SameLinks busy.manager after.manager)
    (htable : after.manager.table = busy.manager.table)
    (hsession : after.manager.session = busy.manager.session)
    (hpending : after.pending = busy.pending)
    (hbest : ∀ {serial}, ends contest.best = some serial →
      after.manager.link? serial = busy.manager.link? serial) :
    after.Contends contest ends := by
  refine ⟨hsound, hsession.trans hcontends.session, hpending ▸ hcontends.calm,
    fun {place serial} hend => ?_, hcontends.apart, fun {serial} hget => ?_,
    fun {serial link} henter hlink hpeer => ?_, fun {serial} hend => ?_⟩
  · obtain ⟨link, hlink, hfits⟩ := hcontends.made hend
    obtain ⟨found, hfound, hidentity⟩ := hsame.exists_after hlink
    exact ⟨found, hfound, hfits.of_identity hidentity⟩
  · exact hcontends.entered (htable ▸ hget)
  · obtain ⟨old, hold, hidentity⟩ := hsame.exists_before hlink
    refine hcontends.entering (hpending ▸ henter) hold ?_
    rw [Link.peer_eq_of_identity hidentity, hpeer]
  · have hkept : Manager.Kept after.manager (busy.pending ++ []) serial :=
      (hcontends.kept hend).extend (hbest hend) htable fun _ haction =>
        absurd haction List.not_mem_nil
    rwa [hpending, ← List.append_nil busy.pending]

/-- Bytes that arrive leave the contest as it stands, if none arrive on the link of greatest rank. -/
theorem arrive {serial : Nat} {bytes : List UInt8} {ended : Bool}
    (hcontends : busy.Contends contest ends)
    (hstep : busy.step (.arrive serial bytes ended) = some after)
    (hnothing : ends contest.best = some serial → bytes = [] ∧ ended = false) :
    after.Contends contest ends := by
  have hsound := hcontends.sound.step hstep
  obtain rfl := Option.some.inj hstep
  refine hcontends.keep hsound
    (.modifyLink busy.manager serial fun link => link.identity_arrive bytes ended) rfl rfl rfl
    fun {top} hbest => ?_
  rw [Manager.link?_modifyLink busy.manager serial top
    fun link => Link.serial_eq_of_identity (link.identity_arrive bytes ended)]
  split
  · rename_i hsame
    obtain ⟨rfl, rfl⟩ := hnothing (hsame ▸ hbest)
    cases busy.manager.link? top with
    | none => rfl
    | some link => simp [Link.arrive]
  · rfl

/-- A change of settings leaves the contest as it stands. -/
theorem reconfigure {settings : Settings} (hcontends : busy.Contends contest ends)
    (hstep : busy.step (.reconfigure settings) = some after) : after.Contends contest ends := by
  have hsound := hcontends.sound.step hstep
  obtain ⟨-, rfl⟩ := step_reconfigure hstep
  exact hcontends.keep hsound rfl rfl rfl rfl fun _ => rfl

end Contends

end BusyManager

end RegionGossip
