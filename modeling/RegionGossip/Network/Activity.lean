import RegionGossip.Network.Basic

/-!
# What happens by itself

Dials are made when they are due, greetings are read when they have arrived or given up when their
time is over, and links carry what they wrote and read what has arrived. `settle` lets all of this
happen until nothing is left to do at the present time, and `waitUntil` lets time pass as well.
-/

namespace RegionGossip.Network

/-- A pause that a manager was told in milliseconds. -/
def later (network : Network) (milliseconds : Nat) : Nat := network.now + 1000 * milliseconds

/-- The timing of a host. -/
def timing (network : Network) (host : Nat) : Timing :=
  match network.manager? host with
  | some manager => manager.timing
  | none => {}

/-- Whether a session of a host is going on. -/
def isLive (network : Network) (host : Nat) (session : Session) : Bool :=
  match network.manager? host with
  | some manager => manager.isLive session.number
  | none => false

/-- A dial is put off after an attempt that failed. -/
def putOff (network : Network) (dial : Dial) : Network :=
  let due := network.later (network.timing dial.host).dialBackoff
  { network with dials := network.dials ++ [{ dial with due }] }

/-- A handshake has failed: its end is given up, and the dial it belongs to is put off. -/
def failHandshake (network : Network) (handshake : Handshake) : Network :=
  let ended := (network.send handshake.endpoint [] true).tick
  match handshake.dial with
  | some dial => ended.putOff dial
  | none => ended

/-- A manager sends its greeting on an end of a connection and waits for the other one. -/
def beginHandshake (network : Network) (host : Nat) (session : Session) (endpoint : Endpoint)
    (dial : Option Dial) : Network :=
  let nonce := network.freshNonce
  let handshake : Handshake :=
    { host, session, endpoint, nonce, dial
      deadline := network.later (network.timing host).handshakeTimeout }
  let drawn := { network with freshNonce := nonce + 1 }.tick
  match network.manager? host with
  | none => drawn
  | some manager =>
    match greetingFrame manager.settings ⟨session.node, nonce⟩ with
    | .ok bytes =>
      let sent := drawn.send endpoint bytes false
      { sent with handshakes := sent.handshakes ++ [handshake] }
    | .error _ => drawn.failHandshake handshake

/-- The host whose manager listens at an address, with its session. -/
def hostAt? (network : Network) (address : Address) : Option (Nat × Session) := do
  let host ← network.hosts.findIdx? fun host => host.listening == some address
  let manager ← network.manager? host
  return (host, ← manager.session)

/-- An end of a connection reaches whoever listens at an address; a listener that is driven by hand
keeps it waiting. Tells whether there is anyone. -/
def reach (network : Network) (address : Address) (connection : Nat) : Option Network :=
  match network.hostAt? address with
  | some (host, session) =>
    some (network.beginHandshake host session ⟨connection, .acceptor⟩ none)
  | none =>
    if network.listeners.any fun listener => listener.address == address then
      some { network with
        listeners := network.listeners.map fun listener =>
          if listener.address = address then
            { listener with backlog := listener.backlog ++ [connection] }
          else listener }
    else none

/-- One attempt of a dial. -/
def attempt (network : Network) (dial : Dial) : Network :=
  let dial := { dial with attempts := dial.attempts - 1 }
  let (connection, connected) := network.addConnection
  match connected.reach dial.address connection with
  | some reached =>
    reached.beginHandshake dial.host dial.session ⟨connection, .dialer⟩ (some dial)
  | none => network.tick.putOff dial

/-- A dial that is due is attempted, unless its session has ended, the neighbour has a link, or no
attempts are left. -/
def stepDial (network : Network) (dial : Dial) : Network :=
  if network.now < dial.due then { network with dials := network.dials ++ [dial] }
  else
    match network.manager? dial.host with
    | none => network
    | some manager =>
      if !manager.isLive dial.session.number || manager.table.contains dial.peer || dial.attempts == 0 then
        network
      else network.attempt dial

/-- The greeting of the other end has arrived: the connection becomes a link, or is dropped. -/
def greet (network : Network) (handshake : Handshake) (manager : Manager)
    (greeting : Wire.Greeting) (rest : List UInt8) : Network :=
  let origin := match handshake.dial with
    | some dial => Origin.dialed dial.peer
    | none => Origin.accepted
  let nonce := linkNonce handshake.nonce greeting.nonce
  match manager.welcome network.now handshake.session origin greeting.node nonce with
  | some admitted =>
    let taken := (network.setManager handshake.host admitted).takeBut handshake.endpoint rest.length
    let attachment : Attachment := ⟨handshake.host, manager.nextSerial, handshake.endpoint, 0⟩
    { taken with attachments := taken.attachments ++ [attachment] }.tick
  | none => (network.send handshake.endpoint [] true).tick

/-- A handshake goes on, if it can. -/
def stepHandshake (network : Network) (handshake : Handshake) : Network :=
  match network.manager? handshake.host with
  | none => network
  | some manager =>
    if manager.isLive handshake.session.number then
      let stream := network.incoming handshake.endpoint
      match readGreeting stream.pending stream.ended with
      | .waiting =>
        if handshake.deadline ≤ network.now then network.failHandshake handshake
        else { network with handshakes := network.handshakes ++ [handshake] }
      | .failed _ => network.failHandshake handshake
      | .greeted greeting rest => network.greet handshake manager greeting rest
    else (network.send handshake.endpoint [] true).tick

/-- What a link wrote is put on its connection. -/
def carry (network : Network) (attachment : Attachment) (link : Link) : Network :=
  let fresh := link.sent.drop attachment.carried
  let stream := network.outgoing attachment.endpoint
  if fresh.isEmpty && (link.writable || stream.ended) then
    { network with attachments := network.attachments ++ [attachment] }
  else
    let carried := network.send attachment.endpoint fresh (!link.writable)
    { carried with
      attachments := carried.attachments ++ [{ attachment with carried := link.sent.length }] }.tick

/-- What has arrived for a link is read. -/
def hear (network : Network) (attachment : Attachment) (link : Link) : Network :=
  let stream := network.incoming attachment.endpoint
  let bytes := stream.pending
  let news := !bytes.isEmpty || (stream.ended && !link.inboxEnded) || link.cancelled
  if link.readLoop = .running ∧ news = true then
    match network.manager? attachment.host with
    | none => network
    | some manager =>
      let arrived := manager.modifyLink attachment.serial fun link => link.arrive bytes stream.ended
      let read := arrived.readLink network.now attachment.serial
      ((network.setManager attachment.host read).takeBut attachment.endpoint 0).tick
  else network

/-- A link reads what has arrived and carries what it wrote. -/
def stepAttachment (network : Network) (attachment : Attachment) : Network :=
  let find (network : Network) : Option Link :=
    (network.manager? attachment.host).bind fun manager => manager.link? attachment.serial
  match find network with
  | none => network
  | some link =>
    let heard := network.hear attachment link
    match find heard with
    | none => heard
    | some link => heard.carry attachment link

/-- Everything that waits gets one chance to go on. -/
def round (network : Network) : Network :=
  let dialed := network.dials.foldl stepDial { network with dials := [] }
  let greeted := dialed.handshakes.foldl stepHandshake { dialed with handshakes := [] }
  greeted.attachments.foldl stepAttachment { greeted with attachments := [] }

/-- How many rounds may be needed: each attempt of a dial, and each handshake, takes a few. -/
def budget (network : Network) : Nat :=
  network.dials.foldl (fun rounds dial => rounds + 4 * dial.attempts + 4) 16 +
    4 * network.handshakes.length + 4 * network.attachments.length

/-- Rounds until nothing happens. -/
def settleRounds : (fuel : Nat) → Network → Network
  | 0, network => network
  | fuel + 1, network =>
    let next := network.round
    if next.now = network.now then next else settleRounds fuel next

/-- Everything happens that can happen without waiting. -/
def settle (network : Network) : Network := settleRounds network.budget network

/-- The next time at which something happens by itself, up to a limit. -/
def nextTimer? (network : Network) (limit : Nat) : Option Nat :=
  let timers := network.dials.map Dial.due ++ network.handshakes.map Handshake.deadline
  (timers.filter fun time => network.now < time && time ≤ limit).min?

/-- How many timers may go off. -/
def timerBudget (network : Network) : Nat :=
  let attempts (dial : Option Dial) : Nat := match dial with
    | some dial => 4 * dial.attempts + 4
    | none => 1
  let dialing := network.dials.foldl (fun timers dial => timers + attempts (some dial)) 1
  network.handshakes.foldl (fun timers handshake => timers + attempts handshake.dial + 1) dialing

/-- Time passes, timer by timer, until something is the case or the limit is reached. -/
def waitTimers (done : Network → Bool) (limit : Nat) : (fuel : Nat) → Network → Network
  | 0, network => network
  | fuel + 1, network =>
    let settled := network.settle
    if done settled then settled
    else
      match settled.nextTimer? limit with
      | some time => waitTimers done limit fuel { settled with now := time }
      | none => { settled with now := max settled.now limit }.settle

/-- Time passes until something is the case, at most for a number of milliseconds. -/
def waitUntil (done : Network → Bool) (milliseconds : Nat) (network : Network) : Network :=
  waitTimers done (network.later milliseconds) network.timerBudget network

end RegionGossip.Network
