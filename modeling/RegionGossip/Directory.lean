import RegionGossip.Address
import RegionGossip.Ident

/-!
# Where nodes are

Tables that say where a node can be dialed and to which region it belongs. A later registration of a
node replaces the earlier one, in whatever case its name is spelled.
-/

namespace RegionGossip

/-- The addresses of nodes and their regions. A node without an address cannot be dialed. -/
structure Directory where
  addresses : SortedMap NodeId Address
  regions : SortedMap NodeId RegionId

namespace Directory

/-- A directory that knows no node. -/
def empty : Directory := ⟨∅, ∅⟩

instance : Inhabited Directory := ⟨empty⟩

/-- A node can be dialed at an address from now on. -/
def register (directory : Directory) (node : NodeId) (address : Address) : Directory :=
  { directory with addresses := directory.addresses.insert node address }

/-- A node cannot be dialed any more. -/
def remove (directory : Directory) (node : NodeId) : Directory :=
  { directory with addresses := directory.addresses.erase node }

/-- Where a node can be dialed. -/
def address? (directory : Directory) (node : NodeId) : Option Address :=
  directory.addresses.get? node

/-- A node belongs to a region from now on. -/
def assign (directory : Directory) (node : NodeId) (region : RegionId) : Directory :=
  { directory with regions := directory.regions.insert node region }

/-- The region of a node. -/
def region? (directory : Directory) (node : NodeId) : Option RegionId :=
  directory.regions.get? node

end Directory

end RegionGossip
