import Mathlib.Combinatorics.SimpleGraph.Operations
import Mathlib.Data.Fin.VecNotation
import RegionGossip.Proofs.Mesh.Traces

/-!
# Rounds in any order

Nodes take their rounds whenever they like, and links come and go. In a round a node may see, for
each node it is linked to at the time, any payload that this node has published at some time before,
or none: payloads are late, lost, repeated or overtake each other. However the rounds are
scheduled, what a node holds was announced by the node whose seed it shows and has come over as many
links as it says, and no round makes it worse.

That nodes ever hear of each other is not claimed here; for that they have to be linked and to see
what the others publish.
-/

namespace RegionGossip.Mesh

variable {mesh : Mesh}

/-- A round of one node: the links that there are at the time, and what the node sees. -/
structure Round (mesh : Mesh) where
  node : mesh.Node
  links : SimpleGraph mesh.Node
  neighbors : SortedMap NodeId Payload

/-- The state after one node has taken a round. -/
def State.perform (state : mesh.State) (round : Round mesh) : mesh.State :=
  Function.update state round.node (state.cycle round.node round.neighbors)

/-- What a node sees are payloads that linked nodes have published, under the names of these. -/
def Round.Possible (round : Round mesh) (state : mesh.State) : Prop :=
  ∀ key payload, (key, payload) ∈ round.neighbors.entries →
    ∃ other : mesh.Node, (key == mesh.name other) = true ∧ round.links.Adj other round.node ∧
      payload ∈ (state other).published

/-- Rounds that are taken one after the other, each of them possible when its turn comes. -/
inductive Runs : mesh.State → List (Round mesh) → mesh.State → Prop
  | nil (state : mesh.State) : Runs state [] state
  | cons {state after : mesh.State} {round : Round mesh} {rest : List (Round mesh)} :
      round.Possible state → Runs (state.perform round) rest after →
        Runs state (round :: rest) after

/-- The links that there were during some of the rounds. -/
def everLinked (rounds : List (Round mesh)) : SimpleGraph mesh.Node :=
  ⨆ round ∈ rounds, round.links

variable {graph : SimpleGraph mesh.Node} {bound : ℕ} {state after : mesh.State}
  {rounds : List (Round mesh)}

/-- The links of each round are among those that there ever were. -/
theorem links_le_everLinked {round : Round mesh} (hround : round ∈ rounds) :
    round.links ≤ everLinked rounds := le_iSup₂_of_le round hround le_rfl

/-- What holds of the node that takes a round, and of those that do not, holds of every node after
the round. -/
theorem perform_cases {motive : mesh.Node → Runtime MaxKernel → Prop} {round : Round mesh}
    (htakes : motive round.node (state.cycle round.node round.neighbors))
    (hothers : ∀ node, node ≠ round.node → motive node (state node)) (node : mesh.Node) :
    motive node (state.perform round node) := by
  rw [State.perform]
  by_cases hnode : node = round.node
  · subst hnode
    rw [Function.update_self]
    exact htakes
  · rw [Function.update_of_ne hnode]
    exact hothers node hnode

/-- In a possible round a node hears what is traced, if all nodes are sound. -/
theorem hears_of_possible {round : Round mesh} (hpossible : round.Possible state)
    (hsound : ∀ node, mesh.Sound graph bound node (state node)) (hlinks : round.links ≤ graph) :
    mesh.Hears graph (bound + 1) round.node round.neighbors := by
  intro payload hpayload
  obtain ⟨⟨key, _⟩, hentry, rfl⟩ := List.mem_map.1 hpayload
  obtain ⟨other, -, hlink, hpublished⟩ := hpossible key _ hentry
  obtain ⟨announcement, htraced, hsame⟩ := (hsound other).published _ hpublished
  exact ⟨other, bound, announcement, hlinks hlink, Nat.lt_succ_self bound, htraced, hsame⟩

/-- A round keeps all nodes sound, with walks that are longer by one link at most. -/
theorem sound_perform {round : Round mesh} (hpossible : round.Possible state)
    (hsound : ∀ node, mesh.Sound graph bound node (state node)) (hlinks : round.links ≤ graph)
    (hbound : bound < 2 ^ 62) (node : mesh.Node) :
    mesh.Sound graph (bound + 1) node (state.perform round node) := by
  apply perform_cases (motive := mesh.Sound graph (bound + 1))
  · apply ((hsound round.node).mono le_rfl (Nat.le_succ bound)).cycle
    · exact hears_of_possible hpossible hsound hlinks
    · exact hbound
  · intro other _
    exact (hsound other).mono le_rfl (Nat.le_succ bound)

/-- Rounds that are taken one after the other keep all nodes sound. -/
theorem sound_runs (hrun : Runs state rounds after)
    (hsound : ∀ node, mesh.Sound graph bound node (state node))
    (hlinks : ∀ round ∈ rounds, round.links ≤ graph) (hbound : bound + rounds.length < 2 ^ 62)
    (node : mesh.Node) : mesh.Sound graph (bound + rounds.length) node (after node) := by
  induction hrun generalizing bound with
  | nil state => exact hsound node
  | @cons state after round rest hpossible _ ih =>
    rw [List.length_cons] at hbound ⊢
    have hfirst := sound_perform hpossible hsound (hlinks round List.mem_cons_self) (by omega)
    have hrest := ih hfirst (fun later hlater => hlinks later (List.mem_cons_of_mem _ hlater))
      (by omega)
    have hsum : bound + 1 + rest.length = bound + (rest.length + 1) := by omega
    exact hsum ▸ hrest

/-- All loops rest after a round. -/
theorem resting_perform (hresting : ∀ node, (state node).Resting) (round : Round mesh)
    (node : mesh.Node) : (state.perform round node).Resting := by
  apply perform_cases (motive := fun _ runtime => runtime.Resting)
  · exact Runtime.resting_cycle (hresting _) _
  · intro other _
    exact hresting other

/-- What a node holds never gets worse in a round. -/
theorem improves_perform (hresting : ∀ node, (state node).Resting) (round : Round mesh)
    (node : mesh.Node) :
    (state node).inner.best.merit ≤ (state.perform round node).inner.best.merit := by
  apply perform_cases (motive := fun node runtime =>
    (state node).inner.best.merit ≤ runtime.inner.best.merit)
  · rw [State.cycle, Runtime.inner_cycle (hresting _)]
    exact MaxKernel.best_le_best_run _ _
  · intro other _
    exact le_rfl

/-- What a node holds never gets worse in any number of rounds. -/
theorem improves_runs (hrun : Runs state rounds after) (hresting : ∀ node, (state node).Resting)
    (node : mesh.Node) : (state node).inner.best.merit ≤ (after node).inner.best.merit := by
  induction hrun with
  | nil => exact le_rfl
  | @cons state after round rest _ _ ih =>
    calc (state node).inner.best.merit
        ≤ (state.perform round node).inner.best.merit := improves_perform hresting round node
      _ ≤ (after node).inner.best.merit := ih (resting_perform hresting round)

/-- After any rounds what a node holds shows the seed of some node and the exact number of links of
a walk from there, over links that there were. So the value is at most the largest seed, the number
of hops is not below zero, and no later round makes what is held worse. -/
theorem held_has_walk (hrun : Runs mesh.initial rounds state) (hfew : rounds.length < 2 ^ 62)
    (node : mesh.Node) :
    (∃ (source : mesh.Node) (walk : (everLinked rounds).Walk source node),
      mesh.seed source = (state node).inner.best.value ∧
        (walk.length : ℤ) = (state node).inner.best.hops.toInt) ∧
    (∀ largest, (∀ source, mesh.seed source ≤ largest) →
      (state node).inner.best.value ≤ largest) ∧
    0 ≤ (state node).inner.best.hops ∧
    ∀ later after, Runs state later after →
      (state node).inner.best.merit ≤ (after node).inner.best.merit := by
  have hsound (node : mesh.Node) :
      mesh.Sound (everLinked rounds) (0 + rounds.length) node (state node) :=
    sound_runs hrun (mesh.sound_initial _ 0) (fun _ => links_le_everLinked) (by omega) node
  obtain ⟨source, walk, hseed, hlength, -⟩ := (hsound node).best
  refine ⟨⟨source, walk, hseed, hlength⟩, ?_, ?_, ?_⟩
  · intro largest hlargest
    exact hseed ▸ hlargest source
  · rw [Int64.le_iff_toInt_le, ← hlength]
    exact Int.natCast_nonneg walk.length
  · intro later after hlater
    exact improves_runs hlater (fun other => (hsound other).resting) node

/-- Three nodes of which the last one has the largest seed. -/
def relay : Mesh where
  size := 3
  name node := ⟨!["x", "y", "z"] node⟩
  seed := ![1, 5, 9]
  distinct := by decide +kernel

/-- The largest seed goes from the last node to the first one over two links that are never there at
the same time, and stays when both are gone. -/
def relayRounds : List (Round relay) := [
  ⟨(2 : Fin 3), ⊥, ∅⟩,
  ⟨(1 : Fin 3), SimpleGraph.edge (2 : Fin 3) (1 : Fin 3),
    .ofList [(⟨"Z"⟩, Announcement.payload ⟨9, 0⟩)]⟩,
  ⟨(0 : Fin 3), SimpleGraph.edge (1 : Fin 3) (0 : Fin 3),
    .ofList [(⟨"y"⟩, Announcement.payload ⟨9, 1⟩)]⟩,
  ⟨(0 : Fin 3), ⊥, ∅⟩]

/-- The first node of the relay holds the largest seed with two hops, and has a walk for them. -/
theorem relay_held_has_walk :
    ∃ state, Runs relay.initial relayRounds state ∧ relayRounds.length < 2 ^ 62 ∧
      (state (0 : Fin 3)).inner.best = ⟨9, 2⟩ ∧
      ∃ (source : relay.Node) (walk : (everLinked relayRounds).Walk source (0 : Fin 3)),
        relay.seed source = 9 ∧ (walk.length : ℤ) = 2 := by
  have hrun : ∃ state, Runs relay.initial relayRounds state ∧
      (state (0 : Fin 3)).inner.best = ⟨9, 2⟩ := by
    refine ⟨_, .cons ?_ (.cons ?_ (.cons ?_ (.cons ?_ (.nil _)))), by decide +kernel⟩
    · intro key payload hmem
      exact absurd hmem List.not_mem_nil
    · intro key payload hmem
      obtain ⟨rfl, rfl⟩ := Prod.mk.inj (List.mem_singleton.1 hmem)
      refine ⟨(2 : Fin 3), by decide +kernel, ?_, List.mem_cons_self⟩
      exact (SimpleGraph.edge_adj ..).2 ⟨.inl ⟨rfl, rfl⟩, (by decide : (2 : Fin 3) ≠ 1)⟩
    · intro key payload hmem
      obtain ⟨rfl, rfl⟩ := Prod.mk.inj (List.mem_singleton.1 hmem)
      refine ⟨(1 : Fin 3), by decide +kernel, ?_, List.mem_cons_self⟩
      exact (SimpleGraph.edge_adj ..).2 ⟨.inl ⟨rfl, rfl⟩, (by decide : (1 : Fin 3) ≠ 0)⟩
    · intro key payload hmem
      exact absurd hmem List.not_mem_nil
  obtain ⟨state, hruns, hbest⟩ := hrun
  have hfew : relayRounds.length < 2 ^ 62 := by decide
  obtain ⟨source, walk, hseed, hlength⟩ := (held_has_walk hruns hfew (0 : Fin 3)).1
  rw [hbest] at hseed hlength
  exact ⟨state, hruns, hfew, hbest, source, walk, hseed, hlength⟩

end RegionGossip.Mesh
