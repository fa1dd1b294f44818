import RegionGossip.Address.Local
import RegionGossip.Link.Greeting
import RegionGossip.Manager.Traffic

/-!
# A network in memory

Managers, and ends of connections that are driven by hand, joined by reliable streams of bytes. A
connection has two ends, and what one of them sends arrives at the other in order. After an end has
ended its stream nothing more comes from it. The clock counts microseconds, and it moves on by one
with everything that happens, so no two events fall together.
-/

namespace RegionGossip

/-- An end of a connection: the one that dialed, or the one that was dialed. -/
inductive Side
  | dialer
  | acceptor
  deriving DecidableEq, Repr

/-- The other end. -/
def Side.opposite : Side → Side
  | .dialer => .acceptor
  | .acceptor => .dialer

/-- What one end of a connection sends. -/
structure ByteStream where
  /-- Everything that was sent. -/
  sent : List UInt8
  /-- How much of it the other end has taken. -/
  taken : Nat
  ended : Bool

namespace ByteStream

/-- A stream on which nothing was sent. -/
def empty : ByteStream := ⟨[], 0, false⟩

/-- What the other end has not yet taken. -/
def pending (stream : ByteStream) : List UInt8 := stream.sent.drop stream.taken

/-- More is sent; after the end of the stream nothing is. -/
def send (stream : ByteStream) (bytes : List UInt8) (ended : Bool) : ByteStream :=
  if stream.ended then stream
  else { stream with sent := stream.sent ++ bytes, ended }

/-- The other end takes all but some bytes. -/
def takeBut (stream : ByteStream) (left : Nat) : ByteStream :=
  { stream with taken := stream.sent.length - left }

end ByteStream

/-- A connection, as what its ends send. -/
structure Connection where
  fromDialer : ByteStream
  fromAcceptor : ByteStream

namespace Connection

/-- What an end sends. -/
def outgoing (connection : Connection) : Side → ByteStream
  | .dialer => connection.fromDialer
  | .acceptor => connection.fromAcceptor

/-- What an end sends is changed. -/
def modify (connection : Connection) (side : Side) (change : ByteStream → ByteStream) :
    Connection :=
  match side with
  | .dialer => { connection with fromDialer := change connection.fromDialer }
  | .acceptor => { connection with fromAcceptor := change connection.fromAcceptor }

end Connection

/-- One end of a connection. -/
structure Endpoint where
  connection : Nat
  side : Side

/-- The same connection's other end. -/
def Endpoint.opposite (endpoint : Endpoint) : Endpoint :=
  { endpoint with side := endpoint.side.opposite }

/-- A neighbour that a manager dials. -/
structure Dial where
  host : Nat
  session : Session
  peer : NodeId
  address : Address
  /-- How many attempts are left. -/
  attempts : Nat
  /-- When the next one is made. -/
  due : Nat

/-- A connection on which a manager waits for the greeting of the other end. -/
structure Handshake where
  host : Nat
  session : Session
  endpoint : Endpoint
  /-- The nonce of its own greeting. -/
  nonce : Int32
  deadline : Nat
  /-- What it was dialed for, if it was. -/
  dial : Option Dial

/-- A link of a manager and its end of a connection. -/
structure Attachment where
  host : Nat
  serial : Nat
  endpoint : Endpoint
  /-- How much of what the link wrote has been put on the connection. -/
  carried : Nat

/-- A manager in the network. -/
structure Host where
  manager : Manager
  /-- Where it listens while it is running. -/
  listening : Option Address

/-- A listener that is driven by hand, with the connections that were not yet accepted. -/
structure Listener where
  address : Address
  backlog : List Nat

/-- Everything in a network. -/
structure Network where
  /-- The time in microseconds. -/
  now : Nat
  directory : Directory
  hosts : List Host
  listeners : List Listener
  connections : List Connection
  dials : List Dial
  handshakes : List Handshake
  attachments : List Attachment
  /-- The next port that was never taken. -/
  freshPort : UInt16
  /-- The next nonce of a manager. -/
  freshNonce : Int32

namespace Network

/-- A network without anything in it. -/
def empty : Network :=
  { now := 0
    directory := Directory.empty
    hosts := []
    listeners := []
    connections := []
    dials := []
    handshakes := []
    attachments := []
    freshPort := 20000
    freshNonce := 1000 }

/-- Something has happened. -/
def tick (network : Network) : Network := { network with now := network.now + 1 }

/-- The manager of a host. -/
def manager? (network : Network) (host : Nat) : Option Manager :=
  network.hosts[host]?.map Host.manager

/-- The manager of a host becomes another one. -/
def setManager (network : Network) (host : Nat) (manager : Manager) : Network :=
  { network with hosts := network.hosts.modify host fun entry => { entry with manager } }

/-- What an end of a connection sends. -/
def outgoing (network : Network) (endpoint : Endpoint) : ByteStream :=
  match network.connections[endpoint.connection]? with
  | some connection => connection.outgoing endpoint.side
  | none => ⟨[], 0, true⟩

/-- What arrives at an end of a connection. -/
def incoming (network : Network) (endpoint : Endpoint) : ByteStream :=
  network.outgoing endpoint.opposite

/-- What an end of a connection sends is changed. -/
def modifyOutgoing (network : Network) (endpoint : Endpoint) (change : ByteStream → ByteStream) :
    Network :=
  { network with
    connections := network.connections.modify endpoint.connection fun connection =>
      connection.modify endpoint.side change }

/-- An end sends bytes, and ends its stream if it is to. -/
def send (network : Network) (endpoint : Endpoint) (bytes : List UInt8) (ended : Bool) : Network :=
  network.modifyOutgoing endpoint fun stream => stream.send bytes ended

/-- An end takes all but some of the bytes that have arrived. -/
def takeBut (network : Network) (endpoint : Endpoint) (left : Nat) : Network :=
  network.modifyOutgoing endpoint.opposite fun stream => stream.takeBut left

/-- A connection between two ends that have not sent anything. Gives its number. -/
def addConnection (network : Network) : Nat × Network :=
  (network.connections.length,
    { network with
      connections := network.connections ++ [⟨ByteStream.empty, ByteStream.empty⟩] })

/-- A new manager. Gives the number of its host. -/
def addHost (network : Network) (manager : Manager) : Nat × Network :=
  (network.hosts.length, { network with hosts := network.hosts ++ [⟨manager, none⟩] })

/-- The addresses at which someone listens. -/
def bound (network : Network) : List Address :=
  network.hosts.filterMap Host.listening ++ network.listeners.map Listener.address

/-- Why nobody more can listen at an address. -/
def bindFault? (network : Network) : Address → Option IoFault := Address.bindFault? network.bound

/-- An address of the own machine at which nobody ever listened. -/
def freshAddress (network : Network) : Address × Network :=
  (⟨"127.0.0.1", network.freshPort⟩, { network with freshPort := network.freshPort + 1 })

/-- A node can be dialed at an address from now on. -/
def register (network : Network) (node : NodeId) (address : Address) : Network :=
  { network with directory := network.directory.register node address }

end Network

end RegionGossip
