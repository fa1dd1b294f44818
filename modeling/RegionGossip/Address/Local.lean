import RegionGossip.Address.Dotted
import RegionGossip.Error

/-!
# Addresses of the own machine

A node can listen at every address of version 4 that begins with 127, and at the one of zeros, which
stands for all of them. Any other address belongs to another machine.
-/

namespace RegionGossip.Address

/-- The name under which every machine knows itself. -/
def ownName : String := "localhost"

/-- Whether a host is the own machine. -/
def isLocal (address : Address) : Bool :=
  match dotted? address.host with
  | some value => value == 0 || value / 0x1000000 == 127
  | none => address.host.toLower == ownName

/-- Why nobody can listen at an address, given those where someone already does. -/
def bindFault? (bound : List Address) (address : Address) : Option IoFault :=
  if !address.isLocal then some .addressNotAvailable
  else if bound.contains address then some .addressInUse
  else none

end RegionGossip.Address
