import RegionGossip.Address

/-!
# Numeric socket addresses

The text of an address of version 4 or 6 of the internet protocol with a port. Version 6 addresses
stand in brackets; one run of zero groups may be left out, the last two groups may be written as a
version 4 address, and a scope may follow. Hosts are written back in the canonical form.
-/

namespace RegionGossip.SocketAddress

/-- A numeric host. -/
inductive Host
  | v4 (octets : List Nat)
  | v6 (groups : List Nat)
  deriving DecidableEq, Repr

/-- A row of digits and what follows it. -/
def spanDigits (isDigit : Char → Bool) (text : List Char) : List Char × List Char :=
  (text.takeWhile isDigit, text.dropWhile isDigit)

/-- A decimal number without superfluous zeros, of at most three digits and below 256. -/
def readOctet (text : List Char) : Option (Nat × List Char) :=
  match spanDigits Char.isDigit text with
  | ([], _) => none
  | (row, rest) =>
    if 3 < row.length ∨ (row.head? = some '0' ∧ 1 < row.length) ∨ 255 < Decimal.value row then none
    else some (Decimal.value row, rest)

/-- The octets after the first one, each behind a point. -/
def readOctets : Nat → List Char → Option (List Nat × List Char)
  | 0, text => some ([], text)
  | count + 1, '.' :: rest => do
    let (octet, rest) ← readOctet rest
    let (octets, rest) ← readOctets count rest
    return (octet :: octets, rest)
  | _ + 1, _ => none

/-- A version 4 address. -/
def readV4 (text : List Char) : Option (List Nat × List Char) := do
  let (first, rest) ← readOctet text
  let (others, rest) ← readOctets 3 rest
  return (first :: others, rest)

/-- Whether a character is a hexadecimal digit. -/
def isHexDigit (c : Char) : Bool :=
  c.isDigit || ('a' ≤ c && c ≤ 'f') || ('A' ≤ c && c ≤ 'F')

/-- The value of a hexadecimal digit. -/
def hexDigitValue (c : Char) : Nat :=
  if c.isDigit then c.toNat - '0'.toNat
  else if 'a' ≤ c then c.toNat - 'a'.toNat + 10
  else c.toNat - 'A'.toNat + 10

/-- A group of at most four hexadecimal digits. -/
def readGroup (text : List Char) : Option (Nat × List Char) :=
  match spanDigits isHexDigit text with
  | ([], _) => none
  | (row, rest) =>
    if 4 < row.length then none
    else some (row.foldl (fun n c => 16 * n + hexDigitValue c) 0, rest)

/-- The two groups of an embedded version 4 address. -/
def embeddedGroups : List Nat → List Nat
  | [a, b, c, d] => [256 * a + b, 256 * c + d]
  | _ => []

/-- As many groups as are there, up to a limit, with colons between them; an embedded version 4
address ends the row. Tells whether one did. -/
def readGroups : (limit : Nat) → (first : Bool) → List Char → List Nat × Bool × List Char
  | 0, _, text => ([], false, text)
  | limit + 1, first, text =>
    let after := if first then some text else match text with
      | ':' :: rest => some rest
      | _ => none
    match after with
    | none => ([], false, text)
    | some rest =>
      match (if 0 < limit then readV4 rest else none) with
      | some (octets, rest) => (embeddedGroups octets, true, rest)
      | none =>
        match readGroup rest with
        | some (group, rest) =>
          let (groups, embedded, rest) := readGroups limit false rest
          (group :: groups, embedded, rest)
        | none => ([], false, text)

/-- A version 6 address. -/
def readV6 (text : List Char) : Option (List Nat × List Char) :=
  let (head, embedded, rest) := readGroups 8 true text
  if head.length = 8 then some (head, rest)
  else if embedded then none
  else
    match rest with
    | ':' :: ':' :: rest =>
      let (tail, _, rest) := readGroups (7 - head.length) true rest
      some (head ++ List.replicate (8 - head.length - tail.length) 0 ++ tail, rest)
    | _ => none

/-- A decimal number up to a bound, with any number of leading zeros. -/
def readBounded (bound : Nat) (text : List Char) : Option (Nat × List Char) :=
  match spanDigits Char.isDigit text with
  | ([], _) => none
  | (row, rest) => if Decimal.value row ≤ bound then some (Decimal.value row, rest) else none

/-- The port, which ends the text. -/
def readPort : List Char → Option UInt16
  | ':' :: rest =>
    match readBounded 65535 rest with
    | some (port, []) => some (UInt16.ofNat port)
    | _ => none
  | _ => none

/-- What follows a scope, if there is one. -/
def skipScope : List Char → Option (List Char)
  | '%' :: rest => (readBounded 0xffffffff rest).map Prod.snd
  | rest => some rest

/-- A host in brackets with its scope. -/
def readBracketed (text : List Char) : Option (List Nat × List Char) := do
  let (groups, rest) ← readV6 text
  match ← skipScope rest with
  | ']' :: rest => return (groups, rest)
  | _ => none

/-- The host and the port of a text. -/
def parse? (text : String) : Option (Host × UInt16) :=
  match text.toList with
  | '[' :: rest => do
    let (groups, rest) ← readBracketed rest
    return (.v6 groups, ← readPort rest)
  | row => do
    let (octets, rest) ← readV4 row
    return (.v4 octets, ← readPort rest)

/-- The longest run of zero groups: where it begins and how long it is. Of equally long ones the
first counts. -/
def zeroRun : (place : Nat) → List Nat → Nat × Nat
  | _, [] => (0, 0)
  | place, group :: rest =>
    let here := ((group :: rest).takeWhile (· == 0)).length
    let (start, size) := zeroRun (place + 1) rest
    if here ≠ 0 ∧ size ≤ here then (place, here) else (start, size)

/-- Groups with colons between them. -/
def groupsText (groups : List Nat) : String :=
  String.intercalate ":" (groups.map fun group => String.ofList (Nat.toDigits 16 group))

/-- Octets with points between them. -/
def octetsText (octets : List Nat) : String :=
  String.intercalate "." (octets.map Decimal.text)

/-- The canonical text of a host. -/
def Host.text : Host → String
  | .v4 octets => octetsText octets
  | .v6 groups =>
    match groups with
    | [0, 0, 0, 0, 0, 0xffff, high, low] =>
      "::ffff:" ++ octetsText [high / 256, high % 256, low / 256, low % 256]
    | groups =>
      let (start, size) := zeroRun 0 groups
      if 1 < size then
        groupsText (groups.take start) ++ "::" ++ groupsText (groups.drop (start + size))
      else groupsText groups

/-- The address that a numeric text gives. -/
def toAddress? (text : String) : Option Address :=
  (parse? text).map fun (host, port) => ⟨host.text, port⟩

end RegionGossip.SocketAddress
