import RegionGossip.Network.Operation

/-!
# Guests

A guest is a node that is driven by hand, at its end of a connection to a manager. It reads the
manager's greeting first, answers with its own when it pleases, and may send anything at all.
-/

namespace RegionGossip

/-- A node that is driven by hand, once it has read the greeting of the manager. -/
structure Guest where
  endpoint : Endpoint
  host : Nat
  /-- The greeting of the manager. -/
  theirs : Wire.Greeting
  /-- Who the guest said it is. -/
  node : Option NodeId

/-- What comes next from a manager. -/
inductive Incoming
  | frame (body : List UInt8)
  | ended
  /-- Nothing came in all the time. -/
  | silence

namespace Network

/-- How long a guest waits for anything, in milliseconds. -/
def patience : Nat := 10000

/-- The next frame at an end of a connection is taken; time passes until it is there or the stream
has ended. -/
def receive (network : Network) (endpoint : Endpoint) : Incoming × Network :=
  let front (network : Network) : Wire.FrameRead :=
    let stream := network.incoming endpoint
    Wire.readFrame stream.pending stream.ended
  let arrived (network : Network) : Bool := match front network with
    | .waiting => false
    | _ => true
  let waited := network.waitUntil arrived patience
  match front waited with
  | .waiting => (.silence, waited)
  | .failed _ _ => (.ended, waited)
  | .body content rest => (.frame content, (waited.takeBut endpoint rest.length).tick)

/-- A guest at a fresh connection, if the greeting of the manager is there. -/
def meet (network : Network) (host : Nat) (endpoint : Endpoint) : Option Guest × Network :=
  match network.receive endpoint with
  | (.frame body, received) =>
    (match Wire.decodeHello body with
      | .ok theirs => some ⟨endpoint, host, theirs, none⟩
      | .error _ => none, received)
  | (_, received) => (none, received)

/-- A guest that dials a manager. -/
def visit (network : Network) (host : Nat) : Option Guest × Network :=
  match network.dial host with
  | some (endpoint, dialed) => dialed.meet host endpoint
  | none => (none, network)

end Network

namespace Guest

/-- A guest hangs up, or sends bytes and ends its stream if it is to. -/
def tell (guest : Guest) (network : Network) (bytes : List UInt8) (ended : Bool) : Network :=
  network.deliver guest.endpoint bytes ended

/-- A guest sends bytes and takes what comes next. -/
def provoke (guest : Guest) (network : Network) (bytes : List UInt8) (ended : Bool) :
    Incoming × Network :=
  (guest.tell network bytes ended).receive guest.endpoint

/-- A guest sends its greeting. It is either linked, or takes what comes instead. -/
def greet (guest : Guest) (network : Network) (settings : Settings) (own : Wire.Greeting) :
    Guest × Option Incoming × Network :=
  let known := { guest with node := some own.node }
  let told := guest.tell network ((greetingFrame settings own).toOption.getD []) false
  if told.isLinked guest.endpoint then (known, none, told)
  else
    let (next, received) := told.receive guest.endpoint
    (known, some next, received)

/-- The state of the manager's link to whoever the guest said it is. -/
def linkState? (guest : Guest) (network : Network) : Option LinkState :=
  guest.node.map (network.manager guest.host).linkState

end Guest

end RegionGossip
