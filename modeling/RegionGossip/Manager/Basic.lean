import RegionGossip.Directory
import RegionGossip.Link.Basic
import RegionGossip.Link.Nonce

/-!
# The neighbour connections of a node

A manager owns every link of one node. Its table holds at most one link per neighbour, the one that
is in use; links that were replaced, turned down or broken are kept aside only for what was written
to them. What was the last state of a neighbour without a link is kept in the history.

A manager runs in sessions: each start opens one, each stop ends it. A connection whose greetings are
exchanged after its session has ended is turned down.
-/

namespace RegionGossip

/-- The time from a start to the next stop. -/
structure Session where
  number : Nat
  /-- Who the node is during this time. -/
  node : NodeId

/-- The connections of a node. -/
structure Manager where
  settings : Settings
  timing : Timing
  /-- Every link that was ever made, in order. -/
  links : List Link
  /-- The serial of the link to each neighbour. -/
  table : SortedMap NodeId Nat
  /-- The last state of neighbours whose links have ended. -/
  history : SortedMap NodeId LinkState
  session : Option Session
  /-- How many sessions were opened. -/
  sessionCount : Nat

namespace Manager

/-- A manager that was never started. -/
def idle (settings : Settings) (timing : Timing) : Manager :=
  { settings, timing
    links := []
    table := ∅
    history := ∅
    session := none
    sessionCount := 0 }

/-- The settings are replaced, if the new ones are valid. -/
def reconfigure (manager : Manager) (settings : Settings) : Except MeshError Manager := do
  let valid ← settings.check
  return { manager with settings := valid }

/-- The serial of the next link. -/
def nextSerial (manager : Manager) : Nat := manager.links.length + 1

/-- The link of a serial. -/
def link? (manager : Manager) (serial : Nat) : Option Link :=
  manager.links.find? fun link => link.serial == serial

/-- The link of a serial is changed. -/
def modifyLink (manager : Manager) (serial : Nat) (change : Link → Link) : Manager :=
  { manager with
    links := manager.links.map fun link => if link.serial = serial then change link else link }

/-- The serials in the table, in the order in which one comes to them. The order is open; it is the
given one, if this has just these serials, and else the one of the neighbours. -/
def visits (manager : Manager) (order : List Nat) : List Nat :=
  if order.Perm manager.table.values then order else manager.table.values

/-- One comes to every link in the table once. -/
theorem perm_visits (manager : Manager) (order : List Nat) :
    (manager.visits order).Perm manager.table.values := by
  rw [visits]
  split
  · assumption
  · exact .refl _

/-- One comes to the links in the table and to no other one. -/
theorem mem_visits_iff {manager : Manager} {order : List Nat} {serial : Nat} :
    serial ∈ manager.visits order ↔ serial ∈ manager.table.values :=
  (manager.perm_visits order).mem_iff

/-- The link to a neighbour that is in use. -/
def entry? (manager : Manager) (peer : NodeId) : Option Link :=
  (manager.table.get? peer).bind manager.link?

/-- Whether the table holds this very link. -/
def holds (manager : Manager) (link : Link) : Bool :=
  manager.table.get? link.peer == some link.serial

/-- The table lets go of a link, unless it was already replaced. -/
def release (manager : Manager) (link : Link) : Manager :=
  if manager.holds link then { manager with table := manager.table.erase link.peer } else manager

/-- The last state of a neighbour is kept. -/
def remember (manager : Manager) (peer : NodeId) : Manager :=
  { manager with history := manager.history.insert peer .terminated }

/-- A link is closed. -/
def closeLink (manager : Manager) (notify : Bool) (serial : Nat) : Manager :=
  manager.modifyLink serial (Link.close manager.settings notify)

/-! ## What can be asked -/

/-- Whether a session is going on. -/
def isRunning (manager : Manager) : Bool := manager.session.isSome

/-- Who the node is, while it is running. -/
def self? (manager : Manager) : Option NodeId := manager.session.map Session.node

/-- The neighbours that have a link, as they are spelled in the table. -/
def neighbors (manager : Manager) : List NodeId := manager.table.keys

/-- The state of the link to a neighbour, or its last state. -/
def linkState (manager : Manager) (peer : NodeId) : LinkState :=
  match manager.entry? peer with
  | some link => link.state
  | none => (manager.history.get? peer).getD .unconnected

/-- The rank of the connection to a neighbour. -/
def linkNonce? (manager : Manager) (peer : NodeId) : Option Int64 :=
  (manager.entry? peer).map Link.nonce

/-- The latest payload of every connected neighbour that has sent one. -/
def snapshot (manager : Manager) : SortedMap NodeId Payload :=
  manager.table.filterMap fun _ serial => do
    let link ← manager.link? serial
    if link.state = .connected then link.latest else none

/-- The longest silence of a link that is not stale, in microseconds. -/
def staleAfter (manager : Manager) : Nat := 1000 * manager.timing.staleAfter

/-- The neighbours that have been silent for too long, as their links spell them. -/
def staleNeighbors (manager : Manager) (now : Nat) : List NodeId :=
  ((manager.table.values.filterMap manager.link?).filter fun link =>
    link.isStale now manager.staleAfter).map Link.peer

end Manager

end RegionGossip
