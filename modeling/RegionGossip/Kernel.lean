import RegionGossip.Error
import RegionGossip.Value

/-!
# The computation of a round

In each round a node sees the latest payload of every neighbour and produces a value of its own and
a payload for its neighbours. The kernel here spreads the largest seed in the network, together with
the number of links to the node it comes from: it keeps the best announcement it ever heard, where a
larger value is better and, between equal values, fewer hops.
-/

namespace RegionGossip

/-- What a round starts from. -/
structure RoundContext where
  node : NodeId
  /-- The number of rounds completed before this one. -/
  round : Nat
  /-- The latest payload of every neighbour. -/
  neighbors : SortedMap NodeId Payload

/-- What a round produces. -/
structure RoundOutput where
  localValue : Value
  outbound : Payload

/-- A value together with the number of links it has travelled. -/
structure Announcement where
  value : Int64
  hops : Int64
  deriving DecidableEq, Repr, Inhabited

namespace Announcement

/-- Whether one announcement is at least as good as another. -/
def atLeast (one two : Announcement) : Bool :=
  two.value < one.value || (two.value == one.value && one.hops ≤ two.hops)

/-- The better of two announcements. -/
def better (one two : Announcement) : Announcement := if two.atLeast one then two else one

/-- Where the value stands in a payload. -/
def valueKey : String := "max/value"

/-- Where the number of links stands in a payload. -/
def hopsKey : String := "max/hops"

/-- One link more; the largest number stays as it is. -/
def nextHop (hops : Int64) : Int64 := if hops == Int64.maxValue then hops else hops + 1

/-- The announcement in a neighbour's payload, one link further. Both numbers must be integers. -/
def heard? (payload : Payload) : Option Announcement := do
  let value ← (← payload.get? valueKey).asInt?
  let hops ← (← payload.get? hopsKey).asInt?
  return ⟨value, nextHop hops⟩

/-- The payload that makes an announcement. -/
def payload (announcement : Announcement) : Payload :=
  Payload.ofEntries [(valueKey, .int announcement.value), (hopsKey, .int announcement.hops)]

/-- The value that shows an announcement. -/
def asValue (announcement : Announcement) : Value :=
  Value.normalize
    (.map [("value", .int announcement.value), ("hops", .int announcement.hops)])

end Announcement

/-- The state of the kernel that spreads the largest seed. -/
structure MaxKernel where
  seed : Int64
  best : Announcement
  deriving DecidableEq, Repr, Inhabited

namespace MaxKernel

/-- At first a node knows its own seed only. -/
def ofSeed (seed : Int64) : MaxKernel := ⟨seed, ⟨seed, 0⟩⟩

/-- The announcements of the neighbours. -/
def heard (neighbors : SortedMap NodeId Payload) : List Announcement :=
  neighbors.values.filterMap Announcement.heard?

/-- One round: the best of the own seed, the best so far, and what the neighbours announce. -/
def run (kernel : MaxKernel) (neighbors : SortedMap NodeId Payload) : MaxKernel :=
  { kernel with
    best := (kernel.best :: heard neighbors).foldl Announcement.better ⟨kernel.seed, 0⟩ }

/-- What a kernel publishes. -/
def output (kernel : MaxKernel) : RoundOutput := ⟨kernel.best.asValue, kernel.best.payload⟩

end MaxKernel

end RegionGossip
