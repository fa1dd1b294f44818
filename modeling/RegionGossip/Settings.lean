import RegionGossip.Binary64.Text

/-!
# Settings of message exchange

The settings that every message is encoded and sent with, and the timing of a connection manager.
Settings are valid when the loss fraction lies between zero and one; an undefined fraction does not.
-/

namespace RegionGossip

/-- How messages are encoded, and how many of them are lost on purpose. -/
structure Settings where
  /-- The fraction of outgoing share messages that is dropped without a word. -/
  dropFraction : Binary64 := Binary64.zero
  /-- Whether objects are written in the compact form instead of the verbose one. -/
  compact : Bool := true
  /-- Whether encoded objects are deflated. -/
  compress : Bool := false
  deriving DecidableEq, Repr, Inhabited

/-- Whether the loss fraction is within its bounds. -/
def Settings.isValid (settings : Settings) : Bool :=
  Binary64.zero.atMost settings.dropFraction && settings.dropFraction.atMost Binary64.one

/-- The settings a handle starts with are valid. -/
theorem Settings.isValid_default : ({} : Settings).isValid = true := by decide

/-- The timing of a connection manager, in milliseconds. -/
structure Timing where
  /-- The longest time that the greeting on a new connection may take. -/
  handshakeTimeout : Nat := 10000
  /-- How often a known neighbour is dialed. -/
  dialAttempts : Nat := 30
  /-- The pause after an attempt that failed. -/
  dialBackoff : Nat := 1000
  /-- The longest time that closing a connection may take. -/
  closeTimeout : Nat := 1000
  /-- A link that has been silent for longer than this is stale. -/
  staleAfter : Nat := 30000
  deriving DecidableEq, Repr, Inhabited

/-- The pause between two execution cycles, unless another one is asked for. -/
def defaultCycleInterval : Nat := 2000

end RegionGossip
