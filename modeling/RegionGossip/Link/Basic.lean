import RegionGossip.Wire.Frame

/-!
# Links

A link is one connection to one neighbour, from the moment both greetings are exchanged. It keeps
the last payload that came in, and every byte that was written to it. Its read loop takes one frame
after the other and ends at the first one that is not shared state, or when the link is cancelled.

Closing a link cancels its read loop and gives up its write half, after a last frame that asks the
neighbour to close its end too, if that is wanted. A terminated link is left as it is.
-/

namespace RegionGossip

/-- Why the read loop of a link ended. -/
inductive LinkExit
  | cancelled
  | closedByPeer
  | failed (error : MeshError)
  deriving DecidableEq, Repr

/-- The read loop of a link. -/
inductive ReadLoop
  /-- It was never begun, because the link was turned down. -/
  | idle
  | running
  | ended (exit : LinkExit)
  deriving DecidableEq, Repr

/-- One connection to one neighbour. -/
structure Link where
  /-- Tells it from every other link of the node. Serials are given out in order and counted in 64
  bits, which no run comes to the end of, so a natural number does. -/
  serial : Nat
  peer : NodeId
  /-- The rank of the connection. -/
  nonce : Int64
  /-- The session of the node in which it was made. -/
  session : Nat
  state : LinkState
  /-- The payload that came in last. -/
  latest : Option Payload
  /-- When it was made, or when the last payload came in, in microseconds. -/
  touched : Nat
  cancelled : Bool
  readLoop : ReadLoop
  /-- What has arrived and is not yet read. -/
  inbox : List UInt8
  /-- Whether the neighbour has ended its stream, so that nothing more will arrive. -/
  inboxEnded : Bool
  /-- Everything that was written, in order. -/
  sent : List UInt8
  /-- Whether there is still a write half. -/
  writable : Bool

/-- What becomes of a message that is sent. -/
inductive Delivery
  | delivered
  /-- It was lost on purpose. -/
  | dropped
  | failed (error : MeshError)
  deriving DecidableEq, Repr

/-- Whether a message is lost on purpose. The coin decides where the loss fraction leaves it open. -/
def Settings.loses (settings : Settings) (coin : Bool) : Except MeshError Bool :=
  let fraction := settings.dropFraction
  if Binary64.zero.below fraction then
    if fraction.atMost Binary64.one then .ok (Binary64.one.atMost fraction || coin)
    else .error (.settings (.lossRate fraction))
  else .ok false

namespace Link

/-- A link on which both greetings were exchanged. -/
def opened (serial : Nat) (peer : NodeId) (nonce : Int64) (session now : Nat) : Link :=
  { serial, peer, nonce, session
    state := .handshaking
    latest := none
    touched := now
    cancelled := false
    readLoop := .idle
    inbox := []
    inboxEnded := false
    sent := []
    writable := true }

/-- Whether nothing came in for longer than a span of microseconds. -/
def isStale (link : Link) (now span : Nat) : Bool := span < now - link.touched

/-- More bytes arrive. -/
def arrive (link : Link) (bytes : List UInt8) (ended : Bool) : Link :=
  { link with inbox := link.inbox ++ bytes, inboxEnded := link.inboxEnded || ended }

/-- The read loop ends. -/
def endReading (link : Link) (exit : LinkExit) : Link := { link with readLoop := .ended exit }

/-- What a message does to a link. -/
def handle (link : Link) (now : Nat) : Except MeshError Wire.Message → Link
  | .ok (.share payload) => { link with latest := some payload, touched := now }
  | .ok .close => link.endReading .closedByPeer
  | .error error => link.endReading (.failed error)

/-- The frame that has arrived is taken from a link, if there is one or none can follow any more. -/
def takeFrame (link : Link) (now : Nat) : Option Link :=
  match Wire.readFrame link.inbox link.inboxEnded with
  | .waiting => none
  | .body content rest =>
    some ({ link with inbox := rest }.handle now (Wire.decodeMessage content))
  | .failed error rest => some ({ link with inbox := rest }.endReading (.failed error))

/-- The read loop takes one frame, if there is one, or ends. -/
def readFrame (link : Link) (now : Nat) : Link :=
  match link.readLoop with
  | .running =>
    if link.cancelled then link.endReading .cancelled else (link.takeFrame now).getD link
  | _ => link

/-- The read loop takes all frames that have arrived. Each takes at least four bytes. -/
def readFrames (now : Nat) : (fuel : Nat) → Link → Link
  | 0, link => link
  | fuel + 1, link => readFrames now fuel (link.readFrame now)

/-- The read loop goes on until it ends or has to wait. -/
def read (link : Link) (now : Nat) : Link := readFrames now (link.inbox.length + 1) link

/-- A frame is written, if there is a write half. A frame that cannot be written spoils the link. -/
def write (link : Link) (body : List UInt8) (writes : Bool) : Delivery × Link :=
  if link.writable then
    match Wire.writeFrame body with
    | .ok frame =>
      if writes then (.delivered, { link with sent := link.sent ++ frame })
      else (.failed (.io .broken), { link with state := .terminating })
    | .error error => (.failed error, { link with state := .terminating })
  else (.failed (.illegalState (.linkClosed link.peer.name)), link)

/-- One payload is sent, with a given way to deflate it. `writes` tells whether the connection takes
it. -/
def sendBy (deflate : List UInt8 → List UInt8) (settings : Settings) (payload : Payload)
    (coin writes : Bool) (link : Link) : Delivery × Link :=
  if link.state = .connected then
    match settings.loses coin with
    | .error error => (.failed error, link)
    | .ok true => (.dropped, link)
    | .ok false => link.write (Wire.encodeShareBy deflate settings payload) writes
  else (.failed (.illegalState (.linkNotConnected link.peer.name link.state)), link)

/-- One payload is sent. -/
def send (settings : Settings) (payload : Payload) (coin writes : Bool) (link : Link) :
    Delivery × Link :=
  link.sendBy Deflate.deflate settings payload coin writes

/-- A link is taken into use. -/
def establish (link : Link) : Link := { link with state := .connected, readLoop := .running }

/-- The read loop is told to end. -/
def cancel (link : Link) : Link := { link with state := .terminating, cancelled := true }

/-- The write half is given up, after a last frame if the neighbour is to be notified. -/
def shut (settings : Settings) (notify : Bool) (link : Link) : Link :=
  { link with
    sent :=
      if link.writable && notify then link.sent ++ Wire.frame (Wire.encodeClose settings)
      else link.sent
    writable := false }

/-- The read loop is cancelled and the write half is given up. -/
def close (settings : Settings) (notify : Bool) (link : Link) : Link :=
  if link.state = .terminated then link else link.cancel.shut settings notify

/-- The link is marked as terminated. -/
def terminate (link : Link) : Link := { link with state := .terminated }

/-- A link in words, with the wording of its nonce left open. -/
def describe (nonceText : Int64 → String) (link : Link) : String :=
  "NeighborLink \x7b serial: " ++ Decimal.text link.serial ++
    ", peer: NodeIdentifier \x7b name: " ++ Text.quoted link.peer.name ++
    " \x7d, nonce: " ++ nonceText link.nonce ++ ", state: " ++ link.state.name ++ " \x7d"

end Link

end RegionGossip
