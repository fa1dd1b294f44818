import Mathlib.Combinatorics.SimpleGraph.Walk.Maps
import RegionGossip.Proofs.Execution.Cycle
import RegionGossip.Proofs.Kernel.Merit

/-!
# Where an announcement comes from

An announcement at a node is traced when it shows the seed of some node and the exact number of
links of a walk from there. The own seed is traced by the walk that goes nowhere, and an
announcement that is heard from a linked node is traced by its walk and the link. So a round keeps
every announcement traced, whatever it hears and however old that is, as long as the walks are short
enough for their lengths to be counted.
-/

namespace RegionGossip.Mesh

variable {mesh : Mesh} {graph : SimpleGraph mesh.Node} {bound next : ℕ} {node : mesh.Node}
  {announcement : Announcement}

/-- An announcement at a node shows the seed of a node and the length of a walk from there, which
has at most so many links. -/
def Traced (mesh : Mesh) (graph : SimpleGraph mesh.Node) (bound : ℕ) (node : mesh.Node)
    (announcement : Announcement) : Prop :=
  ∃ (source : mesh.Node) (walk : graph.Walk source node),
    mesh.seed source = announcement.value ∧ (walk.length : ℤ) = announcement.hops.toInt ∧
      walk.length ≤ bound

/-- A node's own seed has travelled no link. -/
theorem traced_seed : mesh.Traced graph bound node ⟨mesh.seed node, 0⟩ :=
  ⟨node, .nil, rfl, rfl, Nat.zero_le _⟩

/-- A trace stays one where there are more links and longer walks. -/
theorem Traced.mono {larger : SimpleGraph mesh.Node}
    (htraced : mesh.Traced graph bound node announcement) (hgraph : graph ≤ larger)
    (hbound : bound ≤ next) : mesh.Traced larger next node announcement := by
  obtain ⟨source, walk, hseed, hlength, hshort⟩ := htraced
  refine ⟨source, walk.mapLe hgraph, hseed, ?_, ?_⟩
  · rw [SimpleGraph.Walk.length_mapLe]
    exact hlength
  · rw [SimpleGraph.Walk.length_mapLe]
    exact hshort.trans hbound

/-- An announcement that is heard over a link is traced by a walk that ends with this link. -/
theorem Traced.heard {other : mesh.Node} (htraced : mesh.Traced graph bound other announcement)
    (hlink : graph.Adj other node) (hbound : bound < next) (hnext : next ≤ 2 ^ 62) :
    mesh.Traced graph next node
      ⟨announcement.value, Announcement.nextHop announcement.hops⟩ := by
  obtain ⟨source, walk, hseed, hlength, hshort⟩ := htraced
  refine ⟨source, walk.concat hlink, hseed, ?_, ?_⟩
  · rw [Announcement.toInt_nextHop, SimpleGraph.Walk.length_concat]
    omega
  · rw [SimpleGraph.Walk.length_concat]
    omega

/-- All that a node sees was announced by a node it is linked to, with a trace shorter than the
bound. -/
def Hears (mesh : Mesh) (graph : SimpleGraph mesh.Node) (bound : ℕ) (node : mesh.Node)
    (neighbors : SortedMap NodeId Payload) : Prop :=
  ∀ payload ∈ neighbors.values, ∃ (other : mesh.Node) (shorter : ℕ) (announcement : Announcement),
    graph.Adj other node ∧ shorter < bound ∧ mesh.Traced graph shorter other announcement ∧
      payload = announcement.payload

/-- The node's kernel keeps the own seed, and what it holds and has published is traced. -/
structure Sound (mesh : Mesh) (graph : SimpleGraph mesh.Node) (bound : ℕ) (node : mesh.Node)
    (runtime : Runtime MaxKernel) : Prop where
  resting : runtime.Resting
  seed : runtime.inner.seed = mesh.seed node
  best : mesh.Traced graph bound node runtime.inner.best
  published : ∀ payload ∈ runtime.published, ∃ announcement : Announcement,
    mesh.Traced graph bound node announcement ∧ payload = announcement.payload

/-- A node that has not begun is sound. -/
theorem sound_initial (mesh : Mesh) (graph : SimpleGraph mesh.Node) (bound : ℕ)
    (node : mesh.Node) : mesh.Sound graph bound node (mesh.initial node) where
  resting := Runtime.resting_started _ _
  seed := rfl
  best := traced_seed
  published _ hpayload := absurd hpayload List.not_mem_nil

/-- A sound node stays sound where there are more links and longer walks. -/
theorem Sound.mono {runtime : Runtime MaxKernel} {larger : SimpleGraph mesh.Node}
    (hsound : mesh.Sound graph bound node runtime) (hgraph : graph ≤ larger)
    (hbound : bound ≤ next) : mesh.Sound larger next node runtime where
  resting := hsound.resting
  seed := hsound.seed
  best := hsound.best.mono hgraph hbound
  published payload hpayload := by
    obtain ⟨announcement, htraced, hsame⟩ := hsound.published payload hpayload
    exact ⟨announcement, htraced.mono hgraph hbound, hsame⟩

/-- What a round chooses is traced if the best so far is and if what it hears is. -/
theorem traced_run {kernel : MaxKernel} {neighbors : SortedMap NodeId Payload}
    (hseed : kernel.seed = mesh.seed node) (hbest : mesh.Traced graph bound node kernel.best)
    (hhears : mesh.Hears graph bound node neighbors) (hbound : bound ≤ 2 ^ 62) :
    mesh.Traced graph bound node (kernel.run neighbors).best := by
  rcases List.mem_cons.1 (MaxKernel.best_run_mem kernel neighbors) with hown | hothers
  · rw [hown, hseed]
    exact traced_seed
  · rcases List.mem_cons.1 hothers with hheld | hheard
    · rw [hheld]
      exact hbest
    · obtain ⟨payload, hpayload, hsome⟩ := MaxKernel.mem_heard_iff.1 hheard
      obtain ⟨other, shorter, announcement, hlink, hshorter, htraced, rfl⟩ :=
        hhears payload hpayload
      rw [Announcement.heard?_payload] at hsome
      rw [← Option.some.inj hsome]
      exact htraced.heard hlink hshorter hbound

/-- A cycle keeps a node sound if what it hears is traced. -/
theorem Sound.cycle {runtime : Runtime MaxKernel} {neighbors : SortedMap NodeId Payload}
    (hsound : mesh.Sound graph bound node runtime)
    (hhears : mesh.Hears graph bound node neighbors) (hbound : bound ≤ 2 ^ 62) :
    mesh.Sound graph bound node (runtime.cycle MaxKernel.program neighbors 0) := by
  have hbest : mesh.Traced graph bound node (runtime.inner.run neighbors).best :=
    traced_run hsound.seed hsound.best hhears hbound
  constructor
  · exact Runtime.resting_cycle hsound.resting neighbors
  · rw [Runtime.inner_cycle hsound.resting]
    exact hsound.seed
  · rw [Runtime.inner_cycle hsound.resting]
    exact hbest
  · rw [Runtime.published_cycle hsound.resting]
    intro payload hpayload
    rcases List.mem_cons.1 hpayload with rfl | hold
    · exact ⟨_, hbest, rfl⟩
    · exact hsound.published payload hold

end RegionGossip.Mesh
