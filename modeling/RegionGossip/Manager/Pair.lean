import RegionGossip.Link.Nonce
import RegionGossip.Manager.Task

/-!
# Two nodes and the connections between them

Two running nodes may be connected more than once, for each of them may dial the other one at the
same time. A connection has two ends, and each node makes a link of its own end once the greetings
are exchanged. What one end writes is carried to the other end in order, and when its write half is
given up the stream ends there. Apart from that each node goes on by itself.

What is left out would be the fault of others: a link between the two is never silent for too long,
a connection between them breaks only when one of them has closed its end, and neither node is
stopped or told to send.
-/

namespace RegionGossip

/-- One of two nodes. -/
inductive Party
  | first
  | second
  deriving DecidableEq, Repr

/-- The one that is not the other. -/
def Party.other : Party → Party
  | .first => .second
  | .second => .first

/-- A connection between two nodes. -/
structure Pair.Connection where
  dialer : Party
  /-- The nonce in the greeting of each end. -/
  nonce : Party → Int32

namespace Pair.Connection

/-- The rank of a connection, as one end of it works it out. -/
def rank (connection : Connection) (party : Party) : Int64 :=
  linkNonce (connection.nonce party) (connection.nonce party.other)

/-- How a connection to the other node came about. -/
def origin (connection : Connection) (party : Party) (other : NodeId) : Origin :=
  if connection.dialer = party then .dialed other else .accepted

end Pair.Connection

/-- Two nodes and the connections between them, which are meant by their places in the list. -/
structure Pair where
  connections : List Pair.Connection
  node : Party → BusyManager
  /-- The link that a node has made of its end of a connection. -/
  serial : Party → Nat → Option Nat
  /-- How many bytes have been carried to an end of a connection. -/
  carried : Party → Nat → Nat

/-- What may happen next to two nodes. -/
inductive Move
  /-- The greetings on a connection are exchanged, as one of its ends sees it. -/
  | greet (party : Party) (index now : Nat)
  /-- At most so many bytes are carried to one end of a connection. -/
  | carry (party : Party) (index count : Nat)
  /-- Something that concerns one node alone. -/
  | alone (party : Party) (event : Event)

namespace Pair

/-- The link that a node has made of its end of a connection. -/
def end? (pair : Pair) (party : Party) (index : Nat) : Option Link :=
  (pair.serial party index).bind (pair.node party).manager.link?

/-- Whether a link is one end of a connection between the two. -/
def isEnd (pair : Pair) (party : Party) (serial : Nat) : Bool :=
  (List.range pair.connections.length).any fun index => pair.serial party index == some serial

/-- Whether one of the two has closed its end of a connection. -/
def isClosed (pair : Pair) (index : Nat) : Bool :=
  (pair.end? .first index).any Link.cancelled || (pair.end? .second index).any Link.cancelled

/-- Whether the connection of a link may break: it is not one between the two, or one of them has
closed its end. -/
def mayBreak (pair : Pair) (party : Party) (serial : Nat) : Bool :=
  (List.range pair.connections.length).all fun index =>
    pair.serial party index != some serial || pair.isClosed index

/-- Whether an action of a node may go as its chance has it. -/
def permits (pair : Pair) (party : Party) (chance : Chance) : Action → Bool
  | .enter serial =>
    let manager := (pair.node party).manager
    match (manager.link? serial).bind fun link => manager.entry? link.peer with
    | some existing =>
      !(pair.isEnd party existing.serial && existing.isStale chance.now manager.staleAfter)
    | none => true
  | .read serial =>
    match chance.reading with
    | .breakdown _ => pair.mayBreak party serial
    | _ => true
  | _ => true

/-- Whether an event concerns one node alone and leaves the node running. -/
def allows (pair : Pair) (party : Party) : Event → Bool
  | .start .. | .stop | .broadcast .. => false
  | .greet _ _ _ peer _ => (pair.node party.other).manager.self?.all fun other => !(peer == other)
  | .arrive serial _ _ => !pair.isEnd party serial
  | .reconfigure _ => true
  | .work index chance =>
    ((pair.node party).tasks[index]?.bind (·.actions.head?)).all (pair.permits party chance)

/-- One of the nodes is replaced. -/
def setNode (pair : Pair) (party : Party) (busy : BusyManager) : Pair :=
  { pair with node := fun other => if other = party then busy else pair.node other }

/-- A node makes a link of its end of a connection, once only. -/
def greet (pair : Pair) (party : Party) (index now : Nat) : Option Pair := do
  let connection ← pair.connections[index]?
  let session ← (pair.node party).manager.session
  let peer ← (pair.node party.other).manager.self?
  if pair.serial party index = none then
    let event : Event := .greet now session.number (connection.origin party peer) peer
      (connection.rank party)
    let greeted ← (pair.node party).step event
    return { pair.setNode party greeted with
      serial := fun other place =>
        if other = party ∧ place = index then some (pair.node party).manager.nextSerial
        else pair.serial other place }
  else none

/-- The next bytes that the far end of a connection has written are carried to an end of it. The
stream ends with the last one if the far end has given up its write half. -/
def carry (pair : Pair) (party : Party) (index count : Nat) : Option Pair := do
  let serial ← pair.serial party index
  let far ← pair.end? party.other index
  let bytes := (far.sent.drop (pair.carried party index)).take count
  let reached := pair.carried party index + bytes.length
  let carried ← (pair.node party).step
    (.arrive serial bytes (!far.writable && reached == far.sent.length))
  return { pair.setNode party carried with
    carried := fun other place =>
      if other = party ∧ place = index then reached else pair.carried other place }

/-- What becomes of two nodes by a move, if it can be made. -/
def step (pair : Pair) : Move → Option Pair
  | .greet party index now => pair.greet party index now
  | .carry party index count => pair.carry party index count
  | .alone party event =>
    if pair.allows party event then ((pair.node party).step event).map (pair.setNode party) else none

/-- One move after the other. -/
def run (pair : Pair) : List Move → Option Pair
  | [] => some pair
  | move :: later => (pair.step move).bind fun next => next.run later

end Pair

end RegionGossip
