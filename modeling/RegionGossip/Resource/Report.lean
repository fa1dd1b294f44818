import RegionGossip.Ident
import RegionGossip.SortedMap
import RegionGossip.Timestamp

/-!
# What a node measured

A report holds what one node measured over one estimation window. The measured quantities are
numbers of a type that is left open, so that the rules for summing them up can be read for exact
numbers as well as for doubles.
-/

namespace RegionGossip

/-- The window over which a node estimates its load. -/
inductive Window
  | short
  | long
  deriving DecidableEq, Repr, Inhabited

/-- The name of a window in messages. -/
def Window.name : Window → String
  | .short => "Short"
  | .long => "Long"

/-- What is measured at a node. -/
inductive NodeAttribute
  | cpu
  | memory
  | taskContainers
  | queueLength
  deriving DecidableEq, Repr, Inhabited

/-- The place of a node attribute in the order of attributes. -/
def NodeAttribute.rank : NodeAttribute → Nat
  | .cpu => 0
  | .memory => 1
  | .taskContainers => 2
  | .queueLength => 3

instance : Ord NodeAttribute := ⟨compareOn NodeAttribute.rank⟩

instance : Std.TransOrd NodeAttribute :=
  inferInstanceAs (Std.TransCmp (compareOn NodeAttribute.rank))

/-- What is measured at a link. -/
inductive LinkAttribute
  | datarateTx
  | datarateRx
  deriving DecidableEq, Repr, Inhabited

/-- The place of a link attribute in the order of attributes. -/
def LinkAttribute.rank : LinkAttribute → Nat
  | .datarateTx => 0
  | .datarateRx => 1

instance : Ord LinkAttribute := ⟨compareOn LinkAttribute.rank⟩

instance : Std.TransOrd LinkAttribute :=
  inferInstanceAs (Std.TransCmp (compareOn LinkAttribute.rank))

/-- Quantities by node attribute. -/
abbrev NodeAttributes (ν : Type) := SortedMap NodeAttribute ν

/-- Quantities by link attribute. -/
abbrev LinkAttributes (ν : Type) := SortedMap LinkAttribute ν

/-- Quantities by service and client node. -/
abbrev ClientLoad (ν : Type) := SortedMap ServiceId (SortedMap NodeId (NodeAttributes ν))

/-- Quantities by neighbour node. -/
abbrev NeighborLoad (ν : Type) := SortedMap NodeId (LinkAttributes ν)

/-- What one node measured over one window. -/
structure Report (ν : Type) where
  node : NodeId
  timestamp : Timestamp
  window : Window
  computeCapacity : NodeAttributes ν
  computeLoad : ClientLoad ν
  computeDemand : ClientLoad ν
  networkCapacity : NeighborLoad ν
  networkLoad : NeighborLoad ν
  networkDemand : NeighborLoad ν
  /-- The node's mean processing time of each service. -/
  averageProcessingTime : SortedMap ServiceId ν

end RegionGossip
