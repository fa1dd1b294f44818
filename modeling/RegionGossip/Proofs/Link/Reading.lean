import RegionGossip.Manager.Task
import RegionGossip.Proofs.Wire.Framing

/-!
# What a link reads

A read loop takes the frames of its stream in order. As long as they hold shared state it stores the
payload of each in the place of the one before; at the first frame that holds anything else, or that
cannot be read, it ends, and whatever stands behind that is never looked at.
-/

namespace RegionGossip

open Wire (Framable Unfinished decodeMessage frame signedWord)

/-- Why reading ends at the front of what has arrived; `ended` tells that no more will come. -/
inductive ReadStop (ended : Bool) : List UInt8 → LinkExit → Prop
  /-- The neighbour asks for the link to be closed. -/
  | closed {body tail : List UInt8} : Framable body → decodeMessage body = .ok .close →
    ReadStop ended (frame body ++ tail) .closedByPeer
  /-- The frame holds neither shared state nor this request. -/
  | undecodable {body tail : List UInt8} {error : MeshError} : Framable body →
    decodeMessage body = .error error → ReadStop ended (frame body ++ tail) (.failed error)
  | tooShort {word tail : List UInt8} : word.length = 4 → signedWord word ≤ 0 →
    ReadStop ended (word ++ tail) (.failed (.outOfSync (.frameTooShort (signedWord word))))
  | tooLong {word tail : List UInt8} : word.length = 4 →
    (maxFrameLength : Int) < signedWord word →
    ReadStop ended (word ++ tail) (.failed (.outOfSync (.frameTooLong (signedWord word))))
  /-- The stream has ended within a frame or between two. -/
  | cutOff {bytes : List UInt8} : ended = true → Unfinished bytes →
    ReadStop ended bytes (.failed (.io .endOfStream))

/-- The end of a stream takes no reason away. -/
theorem ReadStop.mono {ended later : Bool} {bytes : List UInt8} {exit : LinkExit}
    (hstop : ReadStop ended bytes exit) (hlater : ended = true → later = true) :
    ReadStop later bytes exit := by
  cases hstop with
  | closed hbody hmessage => exact .closed hbody hmessage
  | undecodable hbody hmessage => exact .undecodable hbody hmessage
  | tooShort hword hlength => exact .tooShort hword hlength
  | tooLong hword hlength => exact .tooLong hword hlength
  | cutOff hended hunfinished => exact .cutOff (hlater hended) hunfinished

/-- The body of a frame and the payload that is shared in it. -/
structure Share where
  body : List UInt8
  payload : Payload
  framable : Framable body
  decodes : decodeMessage body = .ok (.share payload)

/-- The bytes of some shares, one frame after the other. -/
def Share.stream (shares : List Share) : List UInt8 := shares.flatMap fun share => frame share.body

/-- What has arrived begins with a share, or gives a reason to end, or has to be waited for. -/
theorem share_or_stop (bytes : List UInt8) (ended : Bool) :
    (∃ (share : Share) (tail : List UInt8), bytes = frame share.body ++ tail) ∨
      (∃ exit, ReadStop ended bytes exit) ∨ (Unfinished bytes ∧ ended = false) := by
  rcases Wire.front_cases bytes with ⟨body, tail, hbody, rfl⟩ | hunfinished |
    ⟨word, tail, hword, rfl, hshort | hlong⟩
  · cases hmessage : decodeMessage body with
    | error error => exact .inr (.inl ⟨_, .undecodable hbody hmessage⟩)
    | ok message =>
      cases message with
      | share payload => exact .inl ⟨⟨body, payload, hbody, hmessage⟩, tail, rfl⟩
      | close => exact .inr (.inl ⟨_, .closed hbody hmessage⟩)
  · cases ended with
    | true => exact .inr (.inl ⟨_, .cutOff rfl hunfinished⟩)
    | false => exact .inr (.inr ⟨hunfinished, rfl⟩)
  · exact .inr (.inl ⟨_, .tooShort hword hshort⟩)
  · exact .inr (.inl ⟨_, .tooLong hword hlong⟩)

/-- Whatever has arrived is a row of shares, and behind them a reason to end, or a part of a frame of
which the rest may still come. -/
theorem exists_shares (bytes : List UInt8) (ended : Bool) :
    ∃ shares unread, bytes = Share.stream shares ++ unread ∧
      ((∃ exit, ReadStop ended unread exit) ∨ (Unfinished unread ∧ ended = false)) := by
  -- every share takes some bytes away
  induction hlength : bytes.length using Nat.strongRecOn generalizing bytes with
  | ind length ih =>
    rcases share_or_stop bytes ended with ⟨share, tail, rfl⟩ | hstop
    · have hbody := share.framable.nonempty
      have hshorter : tail.length < length := by
        rw [List.length_append, frame, List.length_append] at hlength
        omega
      obtain ⟨shares, unread, rfl, hrest⟩ := ih tail.length hshorter tail rfl
      exact ⟨share :: shares, unread, by simp [Share.stream], hrest⟩
    · exact ⟨[], bytes, rfl, hstop⟩

namespace Link

variable {link after : Link} {now : Nat}

/-- A share that has arrived is taken and stored. -/
theorem takeFrame_share {share : Share} {tail : List UInt8}
    (hinbox : link.inbox = frame share.body ++ tail) :
    link.takeFrame now =
      some { link with inbox := tail, latest := some share.payload, touched := now } := by
  rw [takeFrame, hinbox, Wire.readFrame_frame share.framable]
  simp only [share.decodes]
  rfl

/-- Where there is a reason to end the read loop ends, with whatever it leaves unread. -/
theorem takeFrame_stop (now : Nat) {exit : LinkExit}
    (hstop : ReadStop link.inboxEnded link.inbox exit) :
    ∃ left, link.takeFrame now = some { link with inbox := left, readLoop := .ended exit } := by
  obtain ⟨bytes, hinbox⟩ : ∃ bytes, link.inbox = bytes := ⟨_, rfl⟩
  rw [takeFrame, hinbox]
  rw [hinbox] at hstop
  cases hstop with
  | closed hbody hmessage =>
    rw [Wire.readFrame_frame hbody]
    simp only [hmessage]
    exact ⟨_, rfl⟩
  | undecodable hbody hmessage =>
    rw [Wire.readFrame_frame hbody]
    simp only [hmessage]
    exact ⟨_, rfl⟩
  | tooShort hword hlength =>
    rw [Wire.readFrame_tooShort hword hlength]
    exact ⟨_, rfl⟩
  | tooLong hword hlength =>
    rw [Wire.readFrame_tooLong hword hlength]
    exact ⟨_, rfl⟩
  | cutOff hended hunfinished =>
    rw [hended, Wire.readFrame_unfinished hunfinished]
    exact ⟨_, rfl⟩

/-- For a frame of which a part may still come the read loop waits. -/
theorem takeFrame_unfinished (hunfinished : Unfinished link.inbox)
    (hended : link.inboxEnded = false) : link.takeFrame now = none := by
  rw [takeFrame, Wire.readFrame_unfinished hunfinished, hended]
  rfl

/-- How far a link has come with the stream of its neighbour: some shares have been read, and the
rest has not. `breaks` tells with which faults the connection may have broken. -/
structure Heard (breaks : IoFault → Prop) (stream : List UInt8) (shares : List Share)
    (rest : List UInt8) (link : Link) : Prop where
  stream : stream = Share.stream shares ++ rest
  /-- Of what was read the last payload is kept. -/
  latest : link.latest = shares.getLast?.map Share.payload
  /-- A read loop that was never begun has read nothing. -/
  idle : link.readLoop = .idle → shares = []
  inbox : (∀ exit, link.readLoop ≠ .ended exit) → link.inbox = rest
  /-- A read loop ends when it was cancelled, when the connection breaks, or for a reason that is
  found where the shares end. -/
  ended : ∀ {exit}, link.readLoop = .ended exit →
    (exit = .cancelled ∧ link.cancelled = true) ∨
      (∃ fault, breaks fault ∧ exit = .failed (.io fault)) ∨
      ∃ seen later, rest = seen ++ later ∧ ReadStop link.inboxEnded seen exit

/-- All about a link but what is read from it may differ, and it may have been cancelled. -/
structure Aside (before after : Link) : Prop where
  latest : after.latest = before.latest
  readLoop : after.readLoop = before.readLoop
  inbox : after.inbox = before.inbox
  inboxEnded : after.inboxEnded = before.inboxEnded
  cancelled : before.cancelled = true → after.cancelled = true

namespace Heard

variable {breaks : IoFault → Prop} {stream rest : List UInt8} {shares : List Share}

/-- A link that was just made has heard nothing. -/
theorem opened (breaks : IoFault → Prop) (serial : Nat) (peer : NodeId) (nonce : Int64)
    (session now : Nat) : Heard breaks [] [] [] (Link.opened serial peer nonce session now) where
  stream := rfl
  latest := rfl
  idle _ := rfl
  inbox _ := rfl
  ended := nofun

/-- More bytes arrive behind the others. -/
theorem arrive (hheard : Heard breaks stream shares rest link) (bytes : List UInt8)
    (ended : Bool) :
    Heard breaks (stream ++ bytes) shares (rest ++ bytes) (link.arrive bytes ended) where
  stream := by rw [hheard.stream, List.append_assoc]
  latest := hheard.latest
  idle := hheard.idle
  inbox hloop := by rw [← hheard.inbox hloop]; rfl
  ended hloop := by
    rcases hheard.ended hloop with hcancelled | hbroken | ⟨seen, later, rfl, hstop⟩
    · exact .inl hcancelled
    · exact .inr (.inl hbroken)
    · exact .inr (.inr ⟨seen, later ++ bytes, List.append_assoc .., hstop.mono fun hended =>
        show (link.inboxEnded || ended) = true by rw [hended, Bool.true_or]⟩)

/-- What has nothing to do with reading changes nothing about what was heard. -/
theorem aside (hheard : Heard breaks stream shares rest link) (haside : Aside link after) :
    Heard breaks stream shares rest after where
  stream := hheard.stream
  latest := haside.latest.trans hheard.latest
  idle hloop := hheard.idle (haside.readLoop ▸ hloop)
  inbox hloop := haside.inbox.trans (hheard.inbox (haside.readLoop ▸ hloop))
  ended {exit} hloop := by
    rw [haside.inboxEnded]
    exact (hheard.ended (haside.readLoop ▸ hloop)).imp_left fun ⟨hexit, hcancelled⟩ =>
      ⟨hexit, haside.cancelled hcancelled⟩

/-- A link whose read loop begins has heard nothing yet. -/
theorem establish (hheard : Heard breaks stream shares rest link) (hidle : link.readLoop = .idle) :
    Heard breaks stream shares rest link.establish where
  stream := hheard.stream
  latest := hheard.latest
  idle := nofun
  inbox _ := hheard.inbox (by rw [hidle]; exact nofun)
  ended := nofun

/-- A read loop that takes a frame stores what is shared in it, or ends. -/
theorem takeFrame (hheard : Heard breaks stream shares rest link)
    (hrunning : link.readLoop = .running) (htake : link.takeFrame now = some after) :
    ∃ shares rest, Heard breaks stream shares rest after := by
  have hinbox : link.inbox = rest := hheard.inbox (by rw [hrunning]; exact nofun)
  rcases share_or_stop link.inbox link.inboxEnded with ⟨share, tail, hshare⟩ | ⟨exit, hstop⟩ |
    ⟨hunfinished, hended⟩
  · rw [takeFrame_share hshare] at htake
    obtain rfl := Option.some.inj htake
    refine ⟨shares ++ [share], tail, ?_, ?_, fun hidle => ?_, fun _ => rfl, fun hended => ?_⟩
    · rw [hheard.stream, ← hinbox, hshare, Share.stream, Share.stream, List.flatMap_append,
        List.flatMap_singleton, List.append_assoc]
    · rw [List.getLast?_concat, Option.map_some]
    · exact absurd (hrunning.symm.trans hidle) nofun
    · exact absurd (hrunning.symm.trans hended) nofun
  · obtain ⟨left, hleft⟩ := takeFrame_stop now hstop
    obtain rfl := Option.some.inj (hleft.symm.trans htake)
    refine ⟨shares, rest, hheard.stream, hheard.latest, nofun, fun hloop => absurd rfl (hloop exit),
      fun {reason} hreason => .inr (.inr ⟨link.inbox, [], ?_, ?_⟩)⟩
    · rw [List.append_nil, hinbox]
    · obtain rfl := ReadLoop.ended.inj hreason
      exact hstop
  · rw [takeFrame_unfinished hunfinished hended] at htake
    contradiction

/-- A turn of a read loop stores what is shared in a frame, or ends the loop, or does nothing. -/
theorem readOnce (hheard : Heard breaks stream shares rest link) {chance : Chance}
    (hbreaks : ∀ fault, chance.reading = .breakdown fault → breaks fault)
    (hread : link.readOnce chance = some after) :
    ∃ shares rest, Heard breaks stream shares rest after := by
  rw [Link.readOnce] at hread
  split at hread
  · rename_i hrunning _
    exact hheard.takeFrame hrunning hread
  · split at hread
    · rename_i hcancelled
      obtain rfl := Option.some.inj hread
      refine ⟨shares, rest, hheard.stream, hheard.latest, nofun, fun hloop => absurd rfl (hloop _),
        fun {exit} hexit => .inl ⟨(ReadLoop.ended.inj hexit).symm, hcancelled⟩⟩
    · contradiction
  · rename_i fault _ hfault
    obtain rfl := Option.some.inj hread
    exact ⟨shares, rest, hheard.stream, hheard.latest, nofun, fun hloop => absurd rfl (hloop _),
      fun {exit} hexit => .inr (.inl ⟨fault, hbreaks fault hfault, (ReadLoop.ended.inj hexit).symm⟩)⟩
  · contradiction

end Heard

end Link

end RegionGossip
