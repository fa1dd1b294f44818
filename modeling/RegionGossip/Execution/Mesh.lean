import RegionGossip.Execution.Basic

/-!
# A mesh of executing nodes

Several nodes that all spread the largest seed. How payloads travel between them is left open: what
a node sees in a round is given to it. In lockstep all nodes take their rounds at the same time, and
each of them sees what the nodes it is linked to have published in the round before.
-/

namespace RegionGossip

namespace Runtime

variable {σ : Type}

/-- The payloads that a node has published, the latest first. -/
def published (runtime : Runtime σ) : List Payload := ExecutionEvent.published runtime.events

/-- A node that was told to execute and has not begun to. -/
def started (node : NodeId) (inner : σ) : Runtime σ :=
  { idle node inner with state := .running, loops := [⟨.top, false⟩], stored := some 0 }

/-- A node that has not executed yet can be told to. -/
theorem start_idle (node : NodeId) (inner : σ) : (idle node inner).start = .ok (started node inner) :=
  rfl

end Runtime

/-- Nodes with names and seeds; no two names differ in the case of their letters alone. -/
structure Mesh where
  size : Nat
  name : Fin size → NodeId
  seed : Fin size → Int64
  distinct : ∀ {one two : Fin size}, (name one == name two) = true → one = two

namespace Mesh

variable (mesh : Mesh)

/-- A node of a mesh, by its number. -/
abbrev Node : Type := Fin mesh.size

/-- What every node is doing. -/
abbrev State : Type := mesh.Node → Runtime MaxKernel

/-- Every node knows its own seed and was told to execute. -/
def initial : mesh.State := fun node =>
  Runtime.started (mesh.name node) (MaxKernel.ofSeed (mesh.seed node))

variable {mesh}

/-- A node takes one round on what it sees. -/
def State.cycle (state : mesh.State) (node : mesh.Node) (neighbors : SortedMap NodeId Payload) :
    Runtime MaxKernel :=
  (state node).cycle MaxKernel.program neighbors 0

/-- What has arrived from another node: its last payload under its name, if the two are linked. -/
def State.arrival (state : mesh.State) (linked : mesh.Node → mesh.Node → Bool)
    (node other : mesh.Node) : Option (NodeId × Payload) :=
  if linked other node then (state other).published.head?.map (mesh.name other, ·) else none

/-- What a node sees when the last payload of every node it is linked to has arrived. -/
def State.inbox (state : mesh.State) (linked : mesh.Node → mesh.Node → Bool) (node : mesh.Node) :
    SortedMap NodeId Payload :=
  .ofList ((List.finRange mesh.size).filterMap (state.arrival linked node))

/-- All nodes take a round at the same time. -/
def State.advance (state : mesh.State) (linked : mesh.Node → mesh.Node → Bool) : mesh.State :=
  fun node => state.cycle node (state.inbox linked node)

/-- The state after a number of rounds in lockstep. -/
def lockstep (linked : mesh.Node → mesh.Node → Bool) : (rounds : Nat) → mesh.State
  | 0 => mesh.initial
  | rounds + 1 => (lockstep linked rounds).advance linked

end Mesh

end RegionGossip
