import RegionGossip.Network.Activity

/-!
# Operating a network

Starting and stopping managers, broadcasting, and driving ends of connections by hand: dialing a
manager, accepting what a manager dials, sending bytes and taking frames.
-/

namespace RegionGossip.Network

/-! ## Managers -/

/-- A manager starts, listens, and dials the neighbours it knows and has an address for. -/
def start (network : Network) (host : Nat) (node : NodeId) (known : List NodeId) :
    Except MeshError Network :=
  match network.manager? host with
  | none => .ok network
  | some manager => do
    let (started, session, address) ← manager.start network.directory network.bindFault? node
    let listening : Host := ⟨started, some address⟩
    let dials := (Manager.dialed node known).filterMap fun peer =>
      (network.directory.address? peer).map fun address =>
        (⟨host, session, peer, address, manager.timing.dialAttempts, network.now⟩ : Dial)
    return settle
      { network with
        hosts := network.hosts.set host listening
        dials := network.dials ++ dials }.tick

/-- A manager stops, and with it everything it was about to do. -/
def stop (network : Network) (host : Nat) : Network :=
  match network.manager? host with
  | none => network
  | some manager =>
    settle
      { network with hosts := network.hosts.set host ⟨manager.stop network.now [], none⟩ }.tick

/-- A manager sends a payload to its neighbours; none of the connections refuses it. Gives how many
it was written to. -/
def broadcast (network : Network) (host : Nat) (payload : Payload) : Nat × Network :=
  match network.manager? host with
  | none => (0, network)
  | some manager =>
    let (sent, delivered) := manager.broadcast payload [] (fun _ => false) (fun _ => true)
    (delivered, (network.setManager host sent).tick.settle)

/-- The manager that a host runs, or one that was never started. -/
def manager (network : Network) (host : Nat) : Manager :=
  (network.manager? host).getD (Manager.idle {} {})

/-- Whether two managers are linked to each other by one connection. -/
def areLinked (network : Network) (one two : Nat) : Bool :=
  let first := network.manager one
  let second := network.manager two
  match first.self?, second.self? with
  | some firstNode, some secondNode =>
    first.linkState secondNode == .connected && second.linkState firstNode == .connected &&
      first.linkNonce? secondNode == second.linkNonce? firstNode
  | _, _ => false

/-! ## Ends of connections that are driven by hand -/

/-- A node that is driven by hand listens at an address. -/
def listen (network : Network) (address : Address) : Network :=
  let listener : Listener := ⟨address, []⟩
  { network with listeners := network.listeners ++ [listener] }.tick

/-- A connection to the address where a manager listens. -/
def dial (network : Network) (host : Nat) : Option (Endpoint × Network) := do
  let address ← (← network.hosts[host]?).listening
  let (connection, connected) := network.addConnection
  let reached ← connected.reach address connection
  let endpoint : Endpoint := ⟨connection, .dialer⟩
  return (endpoint, reached.settle)

/-- The first connection that waits at an address. -/
def waiting? (network : Network) (address : Address) : Option Nat := do
  let listener ← network.listeners.find? fun listener => listener.address == address
  listener.backlog.head?

/-- The first connection that waits at an address is accepted; time passes until there is one, at
most for a number of milliseconds. -/
def accept (network : Network) (address : Address) (milliseconds : Nat) :
    Option Endpoint × Network :=
  let waited := network.waitUntil (fun network => (network.waiting? address).isSome) milliseconds
  match waited.waiting? address with
  | none => (none, waited)
  | some connection =>
    let accepted : Network :=
      { waited with
        listeners := waited.listeners.map fun listener =>
          if listener.address = address then
            { listener with backlog := listener.backlog.drop 1 }
          else listener }
    (some ⟨connection, .acceptor⟩, accepted.tick)

/-- Bytes are sent on an end that is driven by hand, and the stream is ended if it is to. -/
def deliver (network : Network) (endpoint : Endpoint) (bytes : List UInt8) (ended : Bool) :
    Network :=
  (network.send endpoint bytes ended).tick.settle

/-- Whether the other end of a connection is the link that its manager has in use. -/
def isLinked (network : Network) (endpoint : Endpoint) : Bool :=
  network.attachments.any fun attachment =>
    attachment.endpoint.connection == endpoint.connection &&
      attachment.endpoint.side == endpoint.side.opposite &&
      (network.manager attachment.host).table.values.contains attachment.serial

end RegionGossip.Network
