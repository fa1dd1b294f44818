import RegionGossip.Ident
import RegionGossip.SortedMap

/-!
# What runs in a region

The containers that are deployed in a region, by node. A container is active unless it is being
stopped or has been; whether it can be told how it does is not needed for that.
-/

namespace RegionGossip

/-- The status of a container. -/
inductive Status
  | starting
  | running
  | stopping
  | stopped
  | unknown
  deriving DecidableEq, Repr, Inhabited

/-- Whether a container of this status counts as deployed. -/
def Status.isActive : Status → Bool
  | .stopping => false
  | .stopped => false
  | _ => true

/-- A container that is deployed, or was. -/
structure ContainerState where
  service : ServiceId
  status : Status
  deriving Repr

/-- The containers of a region, by node. -/
structure LiveState where
  region : RegionId
  nodes : SortedMap NodeId (SortedMap ContainerId ContainerState)

/-- A container together with the node it is on. -/
structure Placement where
  node : NodeId
  container : ContainerId
  state : ContainerState

namespace LiveState

/-- A region in which nothing is deployed. -/
def empty (region : RegionId) : LiveState := ⟨region, ∅⟩

/-- A container is put on a node; the node is created if it is not there. -/
def insert (live : LiveState) (node : NodeId) (container : ContainerId) (state : ContainerState) :
    LiveState :=
  { live with
    nodes := live.nodes.upsert node fun held => (held.getD ∅).insert container state }

/-- A node is there, with or without containers. -/
def addNode (live : LiveState) (node : NodeId) : LiveState :=
  { live with nodes := live.nodes.upsert node fun held => held.getD ∅ }

/-- What is known of a container on a node. -/
def container? (live : LiveState) (node : NodeId) (container : ContainerId) :
    Option ContainerState :=
  (live.nodes.get? node).bind fun containers => containers.get? container

/-- Whether a container is active on a node. -/
def isActive (live : LiveState) (node : NodeId) (container : ContainerId) : Bool :=
  (live.container? node container).any (·.status.isActive)

/-- All containers, in the order of the nodes and of the containers on them. -/
def placements (live : LiveState) : List Placement :=
  live.nodes.entries.flatMap fun (node, containers) =>
    containers.entries.map fun (container, state) => ⟨node, container, state⟩

/-- The containers that are neither stopping nor stopped. -/
def active (live : LiveState) : List Placement :=
  live.placements.filter fun placement => placement.state.status.isActive

end LiveState

end RegionGossip
