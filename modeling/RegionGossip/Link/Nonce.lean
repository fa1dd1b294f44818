/-!
# Nonces that rank connections

Each end of a connection sends a nonce, and both ends combine the two in the same way. The larger
nonce fills the high half of the result and decides first; the smaller one, read without its sign,
fills the low half. Of several connections between two nodes the one of greatest rank is kept.
-/

namespace RegionGossip

/-- The rank of a connection, from the nonces of its two ends. -/
def linkNonce (own remote : Int32) : Int64 :=
  let high := max own.toInt remote.toInt
  let low := min own.toInt remote.toInt
  Int64.ofInt (high * 0x100000000 + low % 0x100000000)

/-- Both ends of a connection work out the same rank. -/
theorem linkNonce_comm (own remote : Int32) : linkNonce own remote = linkNonce remote own := by
  rw [linkNonce, linkNonce, Int.max_comm, Int.min_comm]

/-- Whether a new connection outranks the one that is there; a tie keeps the old one. -/
def prefersCandidate (existing candidate : Int64) : Bool := existing < candidate

end RegionGossip
