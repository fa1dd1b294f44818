import RegionGossip.Binary64.Basic

/-!
# The fewest digits that read back

The digits in which a finite positive double is written: of all decimal numbers that are nearer to
it than to any other double, one on the coarsest decimal grid, and on that grid the nearest one.
The numbers that round to a double form an interval around it, whose ends belong to it when its
count of units is even. The interval is measured in quarters of a unit, because below a power of
two the neighbour is only half a unit away.
-/

namespace RegionGossip.Binary64

/-- Which way an exact tie between two candidates of one grid goes. -/
inductive Tie
  | up
  | toEven
  deriving DecidableEq, Repr

/-- A decimal number: a whole count of units of a power of ten. -/
structure DecimalPoint where
  count : Nat
  exponent : Int
  deriving DecidableEq, Repr

/-- The decimal numbers that read back as one double, with everything that is compared brought to
one scale: the double itself is `4 * significand`, counted in quarters. -/
structure Interval where
  low : Nat
  middle : Nat
  high : Nat
  closed : Bool
  deriving Repr

/-- The interval of a significand at a place. -/
def Interval.around (significand : Nat) (place : Int) : Interval :=
  let narrow := significand = fractionRange ∧ leastPlace < place
  { low := if narrow then 4 * significand - 1 else 4 * significand - 2
    middle := 4 * significand
    high := 4 * significand + 2
    closed := significand % 2 = 0 }

/-- Whether a fraction lies in the interval. -/
def Interval.holds (interval : Interval) (num den : Nat) : Bool :=
  if interval.closed then interval.low * den ≤ num && num ≤ interval.high * den
  else interval.low * den < num && num < interval.high * den

/-- The better of a grid's two points beside a number, of those that lie in its interval. Points
are counts of `grid / den` quarters. -/
def Interval.choose (interval : Interval) (tie : Tie) (grid den : Nat) : Option Nat :=
  let below := interval.middle * den / grid
  let above := below + 1
  let belowHolds := interval.holds (below * grid) den
  let aboveHolds := interval.holds (above * grid) den
  let target := 2 * interval.middle * den
  let halfway := (below + above) * grid
  if belowHolds && aboveHolds then
    if target < halfway then some below
    else if halfway < target then some above
    else match tie with
      | .up => some above
      | .toEven => some (if below % 2 = 0 then below else above)
  else if belowHolds then some below
  else if aboveHolds then some above
  else none

/-- Searches from a coarse grid to finer ones; each step makes the grid ten times finer. -/
def searchGrid (tie : Tie) (interval : Interval) (place : Int) : Nat → Int → DecimalPoint
  | 0, exponent => ⟨0, exponent⟩
  | fuel + 1, exponent =>
    let grid := Nat.pow 10 exponent.toNat * Nat.pow 2 (2 - place).toNat
    let den := Nat.pow 10 (-exponent).toNat * Nat.pow 2 (place - 2).toNat
    match interval.choose tie grid den with
    | some count => ⟨count, exponent⟩
    | none => searchGrid tie interval place fuel (exponent - 1)

/-- A power of ten that is above the number. -/
def coarsestGrid (significand : Nat) (place : Int) : Int :=
  ((significand.log2 : Int) + place) * 30103 / 100000 + 2

/-- The decimal number in which a finite double other than zero is written. Seventeen digits are
always enough, and the search starts at most four places above the first of them. -/
def shortest (tie : Tie) (x : Binary64) : DecimalPoint :=
  searchGrid tie (Interval.around x.significand x.place) x.place 24
    (coarsestGrid x.significand x.place)

end RegionGossip.Binary64
