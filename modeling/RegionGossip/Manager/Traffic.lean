import RegionGossip.Manager.Session

/-!
# Admitting links and sending on them

A connection whose greetings are exchanged becomes a link if its session is still going on and the
neighbour has no link yet, or one that has to yield to it. Of two links that are both in use the one
of greater rank stays, so both ends of the connections make the same choice. The link that loses is
closed with a word to the neighbour.
-/

namespace RegionGossip

/-- How a connection came about. -/
inductive Origin
  | accepted
  | dialed (peer : NodeId)

/-- Whether a neighbour is one that the node wants to be connected to: not itself, and whoever was
dialed. -/
def Origin.welcomes (session : Session) (peer : NodeId) : Origin → Bool
  | .accepted => !(peer == session.node)
  | .dialed wanted => peer == wanted

namespace Manager

/-- Whether an existing link has to yield to a new connection. A link that is not in use any more, or
has been silent for too long, always does, so that a neighbour that comes back without having closed
its old connection gets in. -/
def yields (manager : Manager) (now : Nat) (existing : Link) (nonce : Int64) : Bool :=
  existing.state != .connected || existing.isStale now manager.staleAfter ||
    prefersCandidate existing.nonce nonce

/-- Whether a link is taken into the table. -/
def accepts (manager : Manager) (now : Nat) (link : Link) : Bool :=
  manager.isLive link.session &&
    match manager.entry? link.peer with
    | none => true
    | some existing => manager.yields now existing link.nonce

/-- What becomes of a link that asks for a place in the table. -/
inductive Verdict
  | refused
  /-- It takes the place of the link that the table held for its neighbour, if it held one. -/
  | accepted (displaced : Option Nat)
  deriving DecidableEq, Repr

/-- A link asks for a place in the table. What has to be closed because of the verdict is left as it
is. -/
def enter (manager : Manager) (now : Nat) (link : Link) : Verdict × Manager :=
  if manager.accepts now link then
    (.accepted (manager.table.get? link.peer),
      { manager.modifyLink link.serial Link.establish with
        table := manager.table.insert link.peer link.serial })
  else (.refused, manager)

/-- The link of a connection whose greetings are exchanged. -/
def newLink (manager : Manager) (now : Nat) (session : Session) (peer : NodeId) (nonce : Int64) :
    Link :=
  Link.opened manager.nextSerial peer nonce session.number now

/-- A new link is added to those of the manager; it is not in use yet. -/
def addLink (manager : Manager) (link : Link) : Manager :=
  { manager with links := manager.links ++ [link] }

/-- A connection whose greetings are exchanged becomes a link, or is turned down. -/
def register (manager : Manager) (now : Nat) (session : Session) (peer : NodeId) (nonce : Int64) :
    Manager :=
  let link := manager.newLink now session peer nonce
  match (manager.addLink link).enter now link with
  | (.refused, kept) => (kept.closeLink true link.serial).modifyLink link.serial Link.terminate
  | (.accepted (some displaced), admitted) => admitted.closeLink true displaced
  | (.accepted none, admitted) => admitted

/-- A connection whose greetings are exchanged is dropped without a word if the neighbour is not
welcome, and registered otherwise. -/
def welcome (manager : Manager) (now : Nat) (session : Session) (origin : Origin) (peer : NodeId)
    (nonce : Int64) : Option Manager :=
  if origin.welcomes session peer then some (manager.register now session peer nonce) else none

/-- One link of a broadcast, with a given way to deflate: a link on which sending fails is torn down.
Counts the deliveries. -/
def sendToBy (deflate : List UInt8 → List UInt8) (payload : Payload) (coin writes : Nat → Bool)
    (progress : Manager × Nat) (serial : Nat) : Manager × Nat :=
  let (manager, delivered) := progress
  match manager.link? serial with
  | none => progress
  | some link =>
    let (delivery, after) :=
      link.sendBy deflate manager.settings payload (coin serial) (writes serial)
    let sent := manager.modifyLink serial fun _ => after
    match delivery with
    | .delivered => (sent, delivered + 1)
    | .dropped => (sent, delivered)
    | .failed _ => ((sent.release link).closeLink false serial, delivered)

/-- A payload is sent on one link after the other; tells on how many it was written. `coin` decides
about losses and `writes` about connections, each by the serial of the link. -/
def sendAllBy (deflate : List UInt8 → List UInt8) (payload : Payload) (coin writes : Nat → Bool)
    (serials : List Nat) (manager : Manager) : Manager × Nat :=
  serials.foldl (sendToBy deflate payload coin writes) (manager, 0)

/-- A payload is sent to every neighbour; tells to how many it was written. -/
def broadcast (payload : Payload) (order : List Nat) (coin writes : Nat → Bool)
    (manager : Manager) : Manager × Nat :=
  manager.sendAllBy Deflate.deflate payload coin writes (manager.visits order)

end Manager

end RegionGossip
