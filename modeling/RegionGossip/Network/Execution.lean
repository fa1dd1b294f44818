import RegionGossip.Execution.Basic
import RegionGossip.Network.Operation

/-!
# Executing in a network

A node in a network executes on what its manager has received, and its manager broadcasts what the
rounds publish.
-/

namespace RegionGossip

namespace Network

variable {σ : Type}

/-- A node starts to execute, runs one cycle and is stopped. Gives what the cycle published. -/
def executeOnce (program : Program σ) (runtime : Runtime σ) (network : Network) (host : Nat) :
    Except MeshError (Runtime σ × List Payload × Network) := do
  let started ← runtime.start
  let neighbors := (network.manager host).snapshot
  let loop := started.loops.length - 1
  let cycled := ({ started with events := [] }).cycle program neighbors loop
  let published := ExecutionEvent.published cycled.events.reverse
  let told := published.foldl (fun network payload => (network.broadcast host payload).2) network
  return (cycled.stop program (told.manager host).snapshot, published, told)

end Network

end RegionGossip
