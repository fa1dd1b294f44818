import RegionGossip.Link.Greeting
import RegionGossip.Node
import Std.Async.DNS
import Std.Async.Signal
import Std.Async.TCP
import Std.Async.Timer
import Std.Sync.Mutex

/-!
# The command line program

The node runs behind a lock. Whoever changes it also puts what its links have written on their
sockets, so the order on each connection is that in which the node wrote. Reading from a socket,
dialing, accepting, executing and waiting for signals each have a thread.
-/

namespace RegionGossip.Main

open Std.Async Std.Net

/-- The socket of a link. -/
structure LinkSocket where
  serial : Nat
  socket : TCP.Socket.Client
  /-- How much of what the link wrote has been put on the socket. -/
  carried : Nat
  broken : Bool

/-- A node and the sockets of its links. -/
structure Running where
  node : Node
  sockets : List LinkSocket

/-- A node that threads share. -/
abbrev Shared := Std.Mutex Running

/-- The time in microseconds. -/
def clock : IO Nat := do return (← IO.monoNanosNow) / 1000

/-- What a link wrote is put on its socket; a link without a write half gives its socket up. -/
def carry (node : Node) (entry : LinkSocket) : IO (Option LinkSocket) := do
  match node.manager.link? entry.serial with
  | none => return none
  | some link =>
    let fresh := link.sent.drop entry.carried
    try
      if !fresh.isEmpty then (entry.socket.send ⟨fresh.toArray⟩).block
      if link.writable then return some { entry with carried := link.sent.length }
      entry.socket.shutdown.block
      return none
    catch _ => return some { entry with carried := link.sent.length, broken := true }

/-- The node is changed, and its links carry what they wrote. -/
def act (shared : Shared) (change : Running → Running) : IO Running :=
  shared.atomically do
    let changed := change (← get)
    let sockets ← changed.sockets.filterMapM fun entry => (carry changed.node entry : IO _)
    let next := { changed with sockets }
    set next
    return next

/-- The manager of a shared node is changed. -/
def actOnManager (shared : Shared) (change : Manager → Manager) : IO Running :=
  act shared fun running =>
    { running with node := { running.node with manager := change running.node.manager } }

/-- The next bytes on a socket; nothing once its stream has ended. -/
def receive (socket : TCP.Socket.Client) : IO (Option (List UInt8)) := do
  try
    return (← (socket.recv? 65536).block).map fun chunk => chunk.data.toList
  catch _ => return none

/-- The read loop of a link on its socket, until it ends. -/
partial def readLink (shared : Shared) (serial : Nat) (socket : TCP.Socket.Client)
    (bytes : List UInt8) (ended : Bool) : IO Unit := do
  let now ← clock
  let running ← actOnManager shared fun manager =>
    (manager.modifyLink serial fun link => link.arrive bytes ended).readLink now serial
  match running.node.manager.link? serial with
  | some link =>
    if link.readLoop = .running then
      match ← receive socket with
      | some bytes => readLink shared serial socket bytes false
      | none => readLink shared serial socket [] true
  | none => return

/-- The next bytes on a socket within some milliseconds. -/
def receiveWithin (socket : TCP.Socket.Client) (milliseconds : Nat) : IO (Option (List UInt8)) := do
  try
    let chunk ← (do
      let timer ← Selector.sleep (.ofNat milliseconds)
      Selectable.one #[
        .case (socket.recvSelector 65536) fun chunk => return chunk,
        .case timer fun _ => return none] : Async (Option ByteArray)).block
    return chunk.map fun chunk => chunk.data.toList
  catch _ => return none

/-- The greeting on a socket and what came after it, if it comes before a deadline. -/
partial def awaitGreeting (socket : TCP.Socket.Client) (deadline : Nat) (arrived : List UInt8) :
    IO (Option (Wire.Greeting × List UInt8)) := do
  match readGreeting arrived false with
  | .greeted greeting rest => return some (greeting, rest)
  | .failed _ => return none
  | .waiting =>
    let now ← clock
    if deadline ≤ now then return none
    match ← receiveWithin socket ((deadline - now) / 1000 + 1) with
    | some bytes => awaitGreeting socket deadline (arrived ++ bytes)
    | none => return none

/-- A connection on which the greeting of the other end was read becomes a link, if it may. -/
def register (shared : Shared) (socket : TCP.Socket.Client) (origin : Origin) (own : Int32)
    (greeting : Wire.Greeting) : IO (Option Nat) := do
  let now ← clock
  shared.atomically do
    let running ← get
    let manager := running.node.manager
    let rank := linkNonce own greeting.nonce
    match manager.welcome now running.node.session origin greeting.node rank with
    | none => return none
    | some admitted =>
      let entry : LinkSocket := ⟨manager.nextSerial, socket, 0, false⟩
      set
        { running with
          node := { running.node with manager := admitted }
          sockets := running.sockets ++ [entry] }
      return some manager.nextSerial

/-- Both greetings are exchanged on a socket. Tells whether it failed, so that a dial is to be
repeated. -/
def exchange (shared : Shared) (socket : TCP.Socket.Client) (origin : Origin) : IO Bool := do
  let node := (← act shared id).node
  let own := Int32.ofNat (← IO.rand 0 0xffffffff)
  let deadline := (← clock) + 1000 * node.manager.timing.handshakeTimeout
  let giveUp : IO Unit := try socket.shutdown.block catch _ => return
  match greetingFrame node.manager.settings ⟨node.session.node, own⟩ with
  | .error _ => giveUp; return true
  | .ok bytes =>
    (socket.send ⟨bytes.toArray⟩).block
    match ← awaitGreeting socket deadline [] with
    | none => giveUp; return true
    | some (greeting, rest) =>
      match ← register shared socket origin own greeting with
      | none => giveUp
      | some serial => discard <| IO.asTask (readLink shared serial socket rest false) .dedicated
      return false

/-- The numeric form of a host. -/
def resolve (address : Address) : IO SocketAddress := do
  let found : Array IPAddr ← (DNS.getAddrInfo address.host "" (some .ipv4)).block
  match found.toList with
  | .v4 host :: _ => return .v4 ⟨host, address.port⟩
  | .v6 host :: _ => return .v6 ⟨host, address.port⟩
  | [] => throw (.userError "unknown host")

/-- A neighbour is dialed until it has a link or all attempts are used up. -/
def dial (shared : Shared) (peer : NodeId) (address : Address) : (attempts : Nat) → IO Unit
  | 0 => return
  | attempts + 1 => do
    let node := (← act shared id).node
    if !node.manager.isLive node.session.number || node.manager.table.contains peer then return
    let failed ←
      try
        let socket ← TCP.Socket.Client.mk
        (socket.connect (← resolve address)).block
        socket.noDelay
        exchange shared socket (.dialed peer)
      catch _ => pure true
    if failed then
      IO.sleep (UInt32.ofNat node.manager.timing.dialBackoff)
      dial shared peer address attempts

/-- Every connection that comes in is greeted. -/
partial def acceptAll (shared : Shared) (server : TCP.Socket.Server) : IO Unit := do
  let socket ← server.accept.block
  discard <| IO.asTask
    (try discard (exchange shared socket .accepted) catch _ => return) .dedicated
  acceptAll shared server

/-- A number that is drawn from those between zero and one. -/
def draw : IO Binary64 := do
  return (Binary64.ofInt (← IO.rand 0 0x1fffffffffffff)).div (Binary64.ofInt 0x20000000000000)

/-- Cycles of the execution loop, until it ends. -/
partial def execute (shared : Shared) : IO Unit := do
  let links := (← act shared id).node.manager.links.length
  let draws ← (List.range (links + 1)).mapM fun _ => draw
  let running ← act shared fun running =>
    let fraction := running.node.manager.settings.dropFraction
    let coin (serial : Nat) : Bool := match draws[serial]? with
      | some drawn => drawn.below fraction
      | none => false
    let writes (serial : Nat) : Bool :=
      running.sockets.all fun entry => !(entry.serial == serial && entry.broken)
    { running with node := running.node.cycle coin writes }
  if running.node.runtime.state = .running then
    IO.sleep (UInt32.ofNat (min running.node.line.cycleInterval 0xffffffff))
    execute shared

/-- The content of a file, if it can be read. -/
def readFile (path : String) : IO (Option String) := do
  try return some (← IO.FS.readFile path) catch _ => return none

/-- The settings are loaded anew each time the terminal hangs up. -/
partial def reloadAll (shared : Shared) (path : String) (hangup : Signal.Waiter) : IO Unit := do
  discard (← hangup.wait).block
  let content ← readFile path
  match (← act shared id).node.reload content with
  | .ok reloaded =>
    let settings := reloaded.manager.settings
    discard (actOnManager shared fun manager => { manager with settings })
    IO.println (Node.reloadedText settings)
  | .error error =>
    IO.println ("Config reload failed, keeping previous: " ++ error.message Detail.wording)
  reloadAll shared path hangup

/-- A node that has come up runs until it is told to end. -/
def run (node : Node) (server : TCP.Socket.Server) : IO UInt32 := do
  let interrupt ← (← Signal.Waiter.mk .sigint false).wait
  let terminate ← (← Signal.Waiter.mk .sigterm false).wait
  let shared ← Std.Mutex.new (⟨node, []⟩ : Running)
  discard <| IO.asTask (acceptAll shared server) .dedicated
  for (peer, address) in node.dials do
    discard <| IO.asTask (dial shared peer address node.manager.timing.dialAttempts) .dedicated
  discard <| IO.asTask (execute shared) .dedicated
  match node.line.config with
  | some path =>
    let hangup ← Signal.Waiter.mk .sighup true
    discard <| IO.asTask (reloadAll shared path hangup) .dedicated
  | none => pure ()
  let signal ← IO.waitAny
    [interrupt.run.map fun _ => "Received SIGINT", terminate.run.map fun _ => "Received SIGTERM"]
  IO.println signal
  let now ← clock
  let running ← act shared fun running => { running with node := running.node.shutDown now }
  IO.println running.node.farewell
  return 0

/-- A node that does not come up. -/
def report (fault : StartupFault) : IO UInt32 := do
  IO.eprintln ("Error: " ++ fault.message)
  match fault.cause? with
  | some cause => IO.eprintln ("\nCaused by:\n    " ++ cause.message Detail.wording)
  | none => pure ()
  return 1

/-- A node comes up and runs. -/
def serve (line : CommandLine) : IO UInt32 := do
  let content ← match line.config with
    | some path => readFile path
    | none => pure none
  match Node.start (fun _ => content) (fun _ => none) line with
  | .error fault => report fault
  | .ok node =>
    let listening ←
      try
        let server ← TCP.Socket.Server.mk
        server.bind (← resolve node.address)
        server.listen 1024
        pure (some server)
      catch _ => pure none
    match listening with
    | some server => run node server
    | none => report (.manager (.io .addressNotAvailable))

end RegionGossip.Main

open RegionGossip in
/-- Runs a node, or tells why it does not run. -/
def main (arguments : List String) : IO UInt32 := do
  let environment : Environment :=
    ⟨← IO.getEnv "REGIONMESH_NODE_ID", ← IO.getEnv "REGIONMESH_LISTEN",
      ← IO.getEnv "REGIONMESH_CONFIG"⟩
  match CommandLine.parseIn environment arguments with
  | .ok line => Main.serve line
  | .error fault =>
    (if fault.exitCode = 0 then IO.println else IO.eprintln) fault.message
    return UInt32.ofNat fault.exitCode
