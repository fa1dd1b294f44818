import RegionGossip.CommandLine
import RegionGossip.Execution.Basic
import RegionGossip.Manager.Traffic
import RegionGossip.Settings.Toml
import RegionGossip.Value.Listing

/-!
# A node from its command line

A node loads its settings, listens at its own address, dials the neighbours it was told of, and
executes the kernel that spreads the largest seed. Its settings can be loaded anew while it runs;
settings that are not valid are passed over. When it is shut down it tells what it has computed.
-/

namespace RegionGossip

namespace CommandLine

/-- The node that is asked for. -/
def node (line : CommandLine) : NodeId := ⟨line.nodeId⟩

/-- The neighbours to dial, in the order they were given. -/
def known (line : CommandLine) : List NodeId := line.neighbors.map fun (name, _) => ⟨name⟩

/-- Where all nodes are: first the own listening address, then those of the neighbours. -/
def directory (line : CommandLine) : Except AddressFault Directory := do
  let listen ← Address.parse line.listen
  return line.neighbors.foldl (fun directory (name, address) => directory.register ⟨name⟩ address)
    (Directory.empty.register line.node listen)

end CommandLine

/-- Why a node does not come up. -/
inductive StartupFault
  | settings (path : String) (error : MeshError)
  | listen (fault : AddressFault)
  | manager (error : MeshError)
  deriving Repr

/-- The wording of what was being done when a node failed to come up. -/
def StartupFault.message : StartupFault → String
  | .settings path _ => "loading network config " ++ path
  | .listen fault => fault.message
  | .manager _ => "starting neighbor manager"

/-- The error behind a node's failure to come up, if there is one. -/
def StartupFault.cause? : StartupFault → Option MeshError
  | .settings _ error => some error
  | .listen _ => none
  | .manager error => some error

/-- A node that runs. -/
structure Node where
  line : CommandLine
  directory : Directory
  /-- Where it listens. -/
  address : Address
  session : Session
  manager : Manager
  runtime : Runtime MaxKernel

namespace Node

/-- The settings that a node starts with. -/
def initialSettings (readFile : String → Option String) (line : CommandLine) :
    Except StartupFault Settings :=
  match line.config with
  | none => .ok {}
  | some path => (Settings.ofFile path (readFile path)).mapError (StartupFault.settings path)

/-- A node comes up. `readFile` gives the content of files, and `binds` the fault of listening at an
address. -/
def start (readFile : String → Option String) (binds : Address → Option IoFault)
    (line : CommandLine) : Except StartupFault Node := do
  let settings ← initialSettings readFile line
  let directory ← line.directory.mapError StartupFault.listen
  let (manager, session, address) ←
    ((Manager.idle settings {}).start directory binds line.node).mapError StartupFault.manager
  let idle := Runtime.idle line.node (MaxKernel.ofSeed line.seedValue)
  let runtime ← idle.start.mapError StartupFault.manager
  return ⟨line, directory, address, session, manager, runtime⟩

/-- The neighbours that a node dials, with their addresses. -/
def dials (node : Node) : List (NodeId × Address) :=
  (Manager.dialed node.line.node node.line.known).filterMap fun peer =>
    (node.directory.address? peer).map fun address => (peer, address)

/-- One cycle of the execution loop; what it publishes is sent to the neighbours. `writes` tells by
the serial of a link whether its connection takes a message, and `coin` decides about losses. -/
def cycle (node : Node) (coin writes : Nat → Bool) : Node :=
  match node.runtime.stored with
  | none => node
  | some loop =>
    let runtime := ({ node.runtime with events := [] }).cycle MaxKernel.program
      node.manager.snapshot loop
    let manager := (ExecutionEvent.published runtime.events.reverse).foldl
      (fun manager payload => (manager.broadcast payload [] coin writes).1) node.manager
    { node with runtime, manager }

/-- The settings are loaded anew from the content of the settings file, if it can be read. -/
def reload (node : Node) (content : Option String) : Except MeshError Node := do
  let settings ← Settings.ofFile (node.line.config.getD "") content
  let manager ← node.manager.reconfigure settings
  return { node with manager }

/-- What a node tells about settings that it has loaded anew. -/
def reloadedText (settings : Settings) : String :=
  let flag (value : Bool) : String := if value then "true" else "false"
  "Network configuration reloaded drop=" ++ settings.dropFraction.text .listing ++ " compact=" ++
    flag settings.compact ++ " compression=" ++ flag settings.compress

/-- The loop and then the manager are stopped. -/
def shutDown (node : Node) (now : Nat) : Node :=
  { node with
    runtime := node.runtime.stop MaxKernel.program node.manager.snapshot
    manager := node.manager.stop now [] }

/-- What a node tells when it has shut down. -/
def farewell (node : Node) : String :=
  "Node shut down node=" ++ node.line.nodeId ++ " executions=" ++
    Decimal.text node.runtime.executions ++ " value=" ++ node.runtime.localValue.listing

end Node

end RegionGossip
