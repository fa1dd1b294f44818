import RegionGossip.Json.Reader
import RegionGossip.Text.Decimal

/-!
# Addresses

Where a node can be dialed: a host and a port, written with a colon between them. The last colon of
a text divides it, so a host may itself contain colons. A neighbour is given as its name, an equals
sign and its address; the first equals sign divides it.
-/

namespace RegionGossip

/-- Where a node can be dialed. -/
structure Address where
  host : String
  port : UInt16
  deriving DecidableEq, Repr, Inhabited

/-- Why a text is no address. -/
inductive AddressFault
  | noPort (text : String)
  | badPort (text : String) (fault : Decimal.Fault)
  | noAddress (text : String)
  deriving DecidableEq, Repr

/-- The wording of an address fault. -/
def AddressFault.message : AddressFault → String
  | .noPort text => "expected HOST:PORT, got " ++ text
  | .badPort text fault => "bad port in " ++ text ++ ": " ++ fault.message
  | .noAddress text => "expected ID=HOST:PORT, got " ++ text

/-- Divides a text at the first character of a kind. -/
def splitFirst (mark : Char) : List Char → Option (List Char × List Char)
  | [] => none
  | c :: rest =>
    if c = mark then some ([], rest)
    else (splitFirst mark rest).map fun (before, after) => (c :: before, after)

/-- Divides a text at the last character of a kind. -/
def splitLast (mark : Char) (text : List Char) : Option (List Char × List Char) :=
  (splitFirst mark text.reverse).map fun (after, before) => (before.reverse, after.reverse)

namespace Address

/-- The text of an address. -/
def text (address : Address) : String :=
  address.host ++ ":" ++ Decimal.text address.port.toNat

/-- The address that a text gives. -/
def parse (text : String) : Except AddressFault Address :=
  match splitLast ':' text.toList with
  | none => .error (.noPort text)
  | some (host, port) =>
    match Decimal.readNat 65535 port with
    | .ok n => .ok ⟨String.ofList host, UInt16.ofNat n⟩
    | .error fault => .error (.badPort text fault)

/-- A name and an address. -/
def parseNeighbor (text : String) : Except AddressFault (String × Address) :=
  match splitFirst '=' text.toList with
  | none => .error (.noAddress text)
  | some (name, address) => (parse (String.ofList address)).map fun address =>
    (String.ofList name, address)

end Address

end RegionGossip
