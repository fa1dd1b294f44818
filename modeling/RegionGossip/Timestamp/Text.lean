import RegionGossip.Text.Blank
import RegionGossip.Text.Decimal
import RegionGossip.Timestamp.Calendar

/-!
# Times as text

A time is written in the form `2024-01-31T23:59:59.5Z`, in universal time, with as many digits after
the point as are needed in steps of three. Reading is more liberal: white space may stand before a
number and before a separator, a number may lack its leading zeros, and the offset from universal
time may be given instead of the letter.
-/

namespace RegionGossip.Timestamp

/-- A number with zeros in front up to a width. -/
def padded (width n : Nat) : List Char :=
  let digits := Decimal.digits n
  List.replicate (width - digits.length) '0' ++ digits

/-- A year of four digits, or with its sign when four digits do not hold it. -/
def yearText (year : Int) : List Char :=
  if 0 ≤ year ∧ year ≤ 9999 then padded 4 year.natAbs
  else (if year < 0 then '-' else '+') :: padded 4 year.natAbs

/-- The part of a second after the point: none, or three, six or nine digits. -/
def fractionText (nanos : Nat) : List Char :=
  if nanos = 0 then []
  else if nanos % 1000000 = 0 then '.' :: padded 3 (nanos / 1000000)
  else if nanos % 1000 = 0 then '.' :: padded 6 (nanos / 1000)
  else '.' :: padded 9 nanos

/-- The text of a time. -/
def text (time : Timestamp) : String :=
  let date := Date.ofDayCount (time.seconds / 86400)
  let second := (time.seconds % 86400).toNat
  let leap := 1000000000 ≤ time.nanos
  let nanos := if leap then time.nanos - 1000000000 else time.nanos
  String.ofList (yearText date.year ++ '-' :: padded 2 date.month ++ '-' :: padded 2 date.day ++
    'T' :: padded 2 (second / 3600) ++ ':' :: padded 2 (second / 60 % 60) ++
    ':' :: padded 2 (second % 60 + if leap then 1 else 0) ++ fractionText nanos ++ ['Z'])

/-- At least one digit, and at most as many as the width allows. -/
def readDigits (width : Option Nat) (text : List Char) : Option (Nat × List Char) :=
  let row := text.takeWhile Char.isDigit
  let taken := match width with
    | some width => row.take width
    | none => row
  if taken.isEmpty then none else some (Decimal.value taken, text.drop taken.length)

/-- A number of at most two digits within bounds, after white space. -/
def readPair (least most : Nat) (text : List Char) : Option (Nat × List Char) := do
  let (n, rest) ← readDigits (some 2) (Text.dropBlank text)
  if least ≤ n ∧ n ≤ most then some (n, rest) else none

/-- A year of at most four digits, or a sign and any number of digits, after white space. -/
def readYear (text : List Char) : Option (Int × List Char) :=
  match Text.dropBlank text with
  | '-' :: rest => do
    let (n, rest) ← readDigits none rest
    return (-(n : Int), rest)
  | '+' :: rest => do
    let (n, rest) ← readDigits none rest
    return ((n : Int), rest)
  | row => do
    let (n, rest) ← readDigits (some 4) row
    return ((n : Int), rest)

/-- A separator, after white space. -/
def readMark (mark : Char) (text : List Char) : Option (List Char) :=
  match Text.dropBlank text with
  | c :: rest => if c = mark then some rest else none
  | [] => none

/-- The nanoseconds of a part of a second; what nine digits do not hold is dropped. -/
def readFraction : List Char → Option (Nat × List Char)
  | '.' :: rest =>
    let row := rest.takeWhile Char.isDigit
    let digits := row.take 9
    if digits.isEmpty then none
    else some (Decimal.value digits * Nat.pow 10 (9 - digits.length), rest.drop row.length)
  | text => some (0, text)

/-- Two digits that both stand there. -/
def readTwoDigits (most : Nat) : List Char → Option (Nat × List Char)
  | a :: b :: rest =>
    if a.isDigit && b.isDigit && Decimal.value [a, b] ≤ most then some (Decimal.value [a, b], rest)
    else none
  | _ => none

/-- The hours and minutes of an offset, in seconds. -/
def readOffsetSize (text : List Char) : Option (Int × List Char) := do
  let (hours, rest) ← readTwoDigits 99 text
  let (minutes, rest) ←
    readTwoDigits 59 (rest.dropWhile fun c => c == ':' || Text.isBlank c)
  return (((hours * 3600 + minutes * 60 : Nat) : Int), rest)

/-- The offset from universal time in seconds: a letter, a name, or a sign and a size. -/
def readOffset : List Char → Option (Int × List Char)
  | 'Z' :: rest => some (0, rest)
  | 'z' :: rest => some (0, rest)
  | '+' :: rest => readOffsetSize rest
  | '-' :: rest => (readOffsetSize rest).map fun (size, rest) => (-size, rest)
  | '\u2212' :: rest => (readOffsetSize rest).map fun (size, rest) => (-size, rest)
  | a :: b :: c :: rest =>
    if [a.toLower, b.toLower, c.toLower] = ['u', 't', 'c'] then some (0, rest) else none
  | _ => none

/-- A date. -/
def readDate (text : List Char) : Option (Date × List Char) := do
  let (year, rest) ← readYear text
  let rest ← readMark '-' rest
  let (month, rest) ← readPair 1 12 rest
  let rest ← readMark '-' rest
  let (day, rest) ← readPair 1 31 rest
  let date : Date := ⟨year, month, day⟩
  if date.isValid then some (date, rest) else none

/-- What stands between the date and the time of day. -/
def readDivider : List Char → Option (List Char)
  | c :: rest => if c = 'T' ∨ c = 't' ∨ c = ' ' then some rest else none
  | [] => none

/-- The seconds since midnight and the part of a second; the sixtieth second of a minute is the
leap second after the fifty-ninth. -/
def readClock (text : List Char) : Option ((Nat × Nat) × List Char) := do
  let (hour, rest) ← readPair 0 23 text
  let rest ← readMark ':' rest
  let (minute, rest) ← readPair 0 59 rest
  let rest ← readMark ':' rest
  let (second, rest) ← readPair 0 60 rest
  let (nanos, rest) ← readFraction rest
  let seconds := hour * 3600 + minute * 60 + min second 59
  return ((seconds, if second = 60 then 1000000000 + nanos else nanos), rest)

/-- The time that a text gives. -/
def parse? (text : String) : Option Timestamp := do
  let (date, rest) ← readDate text.toList
  let rest ← readDivider rest
  let ((seconds, nanos), rest) ← readClock rest
  let (offset, rest) ← readOffset (Text.dropBlank rest)
  if !(Text.dropBlank rest).isEmpty || 86400 ≤ offset.natAbs then none
  else
    let total := date.dayCount * 86400 + seconds - offset
    let year := (Date.ofDayCount (total / 86400)).year
    if firstYear ≤ year ∧ year ≤ lastYear then some ⟨total, nanos⟩ else none

end RegionGossip.Timestamp
