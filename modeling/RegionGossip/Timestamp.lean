/-!
# Points in time

A point in time is a count of seconds since the beginning of 1970 and a part of a second in
nanoseconds. A leap second has no count of its own: it is the second before it with a part between
one and two whole seconds.
-/

namespace RegionGossip

/-- A point in time. -/
structure Timestamp where
  seconds : Int
  nanos : Nat
  deriving DecidableEq, Repr, Inhabited

namespace Timestamp

/-- Times are ordered by seconds and then by the part of a second. -/
def precedes (left right : Timestamp) : Bool :=
  left.seconds < right.seconds || (left.seconds == right.seconds && left.nanos < right.nanos)

/-- The earlier of two times. -/
def earlier (left right : Timestamp) : Timestamp := if right.precedes left then right else left

/-- The later of two times. -/
def later (left right : Timestamp) : Timestamp := if left.precedes right then right else left

/-- The earlier of two times that may be missing; a missing one does not count. -/
def earliest : Option Timestamp → Option Timestamp → Option Timestamp
  | some left, some right => some (left.earlier right)
  | some left, none => some left
  | none, right => right

/-- The later of two times that may be missing; a missing one does not count. -/
def latest : Option Timestamp → Option Timestamp → Option Timestamp
  | some left, some right => some (left.later right)
  | some left, none => some left
  | none, right => right

end Timestamp

end RegionGossip
