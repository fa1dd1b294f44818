import RegionGossip.Binary64.Text
import RegionGossip.Ident
import RegionGossip.SortedMap
import RegionGossip.Timestamp

/-!
# Load balancer plans

A plan lists for each node the containers that should serve there and how much traffic each of them
gets, and for each service the regions that take over what the region itself cannot serve.
-/

namespace RegionGossip

/-- An entry of a node's plan. An entry without a container asks for a new one. -/
structure PlanEntry where
  container : Option ContainerId
  service : ServiceId
  weight : Binary64
  stopTraffic : Bool
  stop : Bool
  deriving Repr

namespace PlanEntry

/-- A container that runs already, with nothing special asked of it. -/
def existing (container : ContainerId) (service : ServiceId) : PlanEntry :=
  ⟨some container, service, Binary64.one, false, false⟩

/-- A container that is to be created. -/
def toCreate (service : ServiceId) (weight : Binary64) : PlanEntry :=
  ⟨none, service, weight, false, false⟩

/-- Whether an entry is about a container. -/
def isFor (entry : PlanEntry) (container : ContainerId) : Bool := entry.container == some container

/-- Equality of entries, without regard to the spelling of identifiers. -/
def same (one two : PlanEntry) : Bool :=
  one.container == two.container && one.service == two.service && one.weight == two.weight &&
    one.stopTraffic == two.stopTraffic && one.stop == two.stop

instance : BEq PlanEntry := ⟨same⟩

end PlanEntry

/-- The fraction of a service's traffic that each neighbour region takes over. -/
abbrev OverflowPlan := SortedMap ServiceId (SortedMap RegionId Binary64)

/-- The plan of a region. -/
structure Plan where
  region : RegionId
  timestamp : Timestamp
  services : SortedMap NodeId (List PlanEntry)
  overflow : OverflowPlan

namespace Plan

/-- The plan of a region before there was any. -/
def null (region : RegionId) (timestamp : Timestamp) : Plan := ⟨region, timestamp, ∅, ∅⟩

/-- The entries of a node. -/
def containers (plan : Plan) (node : NodeId) : List PlanEntry := (plan.services.get? node).getD []

/-- Whether two plans ask for the same, no matter when they were made. -/
def equivalent (one two : Plan) : Bool :=
  one.region == two.region && one.services == two.services && one.overflow == two.overflow

end Plan

/-- Why a plan does not fit the region it is for. -/
inductive PlanFault
  | wrongRegion (planned live : RegionId)
  | repeated (container : ContainerId) (node : NodeId)
  | missing (container : ContainerId) (node : NodeId)
  | wrongService (container : ContainerId) (node : NodeId) (live planned : ServiceId)
  deriving Repr

/-- Why a change to a plan, or its completion, is refused. -/
inductive PlanError
  | invalid (fault : PlanFault)
  | unknownContainer (node : NodeId) (container : ContainerId)
  | invalidWeight (weight : Binary64)
  deriving Repr

/-- The wording of a plan's fault. -/
def PlanFault.message : PlanFault → String
  | .wrongRegion planned live =>
    "plan is for region " ++ planned.name ++ " but live state is for " ++ live.name
  | .repeated container node =>
    "container " ++ container.name ++ " appears more than once on node " ++ node.name
  | .missing container node =>
    "container " ++ container.name ++ " on node " ++ node.name ++ " is missing from the plan"
  | .wrongService container node live planned =>
    "container " ++ container.name ++ " on node " ++ node.name ++ " runs " ++ live.name ++
      " but the plan assigns " ++ planned.name

/-- The wording of a planning error. -/
def PlanError.message : PlanError → String
  | .invalid fault => "plan validation failed: " ++ fault.message
  | .unknownContainer node container =>
    "container " ++ container.name ++ " not found on node " ++ node.name
  | .invalidWeight weight =>
    "invalid weight " ++ weight.text .message ++ ", weights must be finite and non-negative"

end RegionGossip
