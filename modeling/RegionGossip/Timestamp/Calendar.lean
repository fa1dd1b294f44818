import RegionGossip.Timestamp

/-!
# Days and dates

The count of days since the beginning of 1970 as a date of the Gregorian calendar, and back. Years
are counted from March, so that the day a leap year adds is the last one of its year.
-/

namespace RegionGossip

/-- A date. -/
structure Date where
  year : Int
  month : Nat
  day : Nat
  deriving DecidableEq, Repr

/-- The first and the last year in which a time may lie. -/
def firstYear : Int := -262143

/-- The last year in which a time may lie. -/
def lastYear : Int := 262142

/-- Every fourth year is a leap year, except three of four that end a century. -/
def isLeapYear (year : Int) : Bool :=
  year % 4 == 0 && (year % 100 != 0 || year % 400 == 0)

/-- The number of days in a month. -/
def daysInMonth (year : Int) (month : Nat) : Nat :=
  if month = 2 then (if isLeapYear year then 29 else 28)
  else if month = 4 ∨ month = 6 ∨ month = 9 ∨ month = 11 then 30
  else 31

namespace Date

/-- Whether a date exists. -/
def isValid (date : Date) : Bool :=
  firstYear ≤ date.year && date.year ≤ lastYear && 1 ≤ date.month && date.month ≤ 12 &&
    1 ≤ date.day && date.day ≤ daysInMonth date.year date.month

/-- The number of days from the beginning of 1970 to a date. -/
def dayCount (date : Date) : Int :=
  let year := if date.month ≤ 2 then date.year - 1 else date.year
  let month : Int := (((date.month + 9) % 12 : Nat) : Int)
  let cycle := year / 400
  let yearOfCycle := year % 400
  let dayOfYear := (153 * month + 2) / 5 + date.day - 1
  let dayOfCycle := yearOfCycle * 365 + yearOfCycle / 4 - yearOfCycle / 100 + dayOfYear
  cycle * 146097 + dayOfCycle - 719468

/-- The date a number of days after the beginning of 1970. -/
def ofDayCount (days : Int) : Date :=
  let shifted := days + 719468
  let cycle := shifted / 146097
  let dayOfCycle := shifted % 146097
  let yearOfCycle :=
    (dayOfCycle - dayOfCycle / 1460 + dayOfCycle / 36524 - dayOfCycle / 146096) / 365
  let dayOfYear := dayOfCycle - (365 * yearOfCycle + yearOfCycle / 4 - yearOfCycle / 100)
  let month := (5 * dayOfYear + 2) / 153
  let day := (dayOfYear - (153 * month + 2) / 5 + 1).toNat
  let monthNumber := (if month < 10 then month + 3 else month - 9).toNat
  let year := yearOfCycle + cycle * 400
  ⟨if monthNumber ≤ 2 then year + 1 else year, monthNumber, day⟩

end Date

end RegionGossip
