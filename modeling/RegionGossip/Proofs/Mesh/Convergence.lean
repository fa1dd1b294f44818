import Mathlib.Combinatorics.SimpleGraph.Diam
import Mathlib.Combinatorics.SimpleGraph.Hasse
import Mathlib.Data.Fin.VecNotation
import RegionGossip.Proofs.Mesh.Traces
import RegionGossip.Proofs.SortedMap.Update

/-!
# Rounds in lockstep

When all nodes of a graph take their rounds at the same time and see what their neighbours published
in the round before, seeds travel one link in each round. After some rounds a node publishes the
best announcement of all nodes that are fewer links away, with the distance as its hops: nothing
better can have come that far, and a shortest walk has brought the best one. In a connected graph
the nodes agree on the largest seed once there were more rounds than the diameter has links.
-/

namespace RegionGossip.Mesh

variable {mesh : Mesh}

/-- Two nodes are linked when a graph has an edge between them. -/
def linkedBy (graph : SimpleGraph mesh.Node) [DecidableRel graph.Adj] (one two : mesh.Node) : Bool :=
  decide (graph.Adj one two)

/-- In a graph exactly the ends of an edge are linked. -/
theorem linkedBy_iff {graph : SimpleGraph mesh.Node} [DecidableRel graph.Adj] {one two : mesh.Node} :
    linkedBy graph one two = true ↔ graph.Adj one two := decide_eq_true_iff

section Inbox

variable {state : mesh.State} {linked : mesh.Node → mesh.Node → Bool} {node : mesh.Node}

/-- From each linked node its last payload arrives, under its name. -/
theorem arrival_eq_some_iff {other : mesh.Node} {key : NodeId} {payload : Payload} :
    state.arrival linked node other = some (key, payload) ↔
      linked other node = true ∧ (state other).published.head? = some payload ∧
        mesh.name other = key := by
  rw [State.arrival]
  split
  · rename_i hlink
    simp [hlink]
  · rename_i hlink
    simp [hlink]

/-- What a node sees are the last payloads of the nodes it is linked to. -/
theorem mem_values_inbox {payload : Payload} :
    payload ∈ (state.inbox linked node).values ↔
      ∃ other : mesh.Node, linked other node = true ∧
        (state other).published.head? = some payload := by
  have hdistinct : SortedMap.Distinct
      ((List.finRange mesh.size).filterMap (state.arrival linked node)) := by
    refine List.Pairwise.filterMap _ ?_ (List.nodup_finRange mesh.size)
    rintro one two hne ⟨left, _⟩ hone ⟨right, _⟩ htwo hkeys
    obtain ⟨-, -, rfl⟩ := arrival_eq_some_iff.1 hone
    obtain ⟨-, -, rfl⟩ := arrival_eq_some_iff.1 htwo
    exact hne (mesh.distinct (Ident.compare_eq_iff_beq.1 hkeys))
  rw [State.inbox, SortedMap.mem_values_ofList hdistinct]
  constructor
  · rintro ⟨key, hmem⟩
    obtain ⟨other, -, harrival⟩ := List.mem_filterMap.1 hmem
    obtain ⟨hlink, hhead, -⟩ := arrival_eq_some_iff.1 harrival
    exact ⟨other, hlink, hhead⟩
  · rintro ⟨other, hlink, hhead⟩
    refine ⟨mesh.name other, List.mem_filterMap.2 ⟨other, List.mem_finRange other, ?_⟩⟩
    exact arrival_eq_some_iff.2 ⟨hlink, hhead, rfl⟩

end Inbox

variable {graph : SimpleGraph mesh.Node} {bound rounds : ℕ}

/-- After a round in lockstep a node has last published, and shows, what it holds. -/
theorem shows_advance {state : mesh.State} {node : mesh.Node} (hresting : (state node).Resting)
    (linked : mesh.Node → mesh.Node → Bool) :
    (state.advance linked node).published.head? =
        some (state.advance linked node).inner.best.payload ∧
      (state.advance linked node).localValue =
        (state.advance linked node).inner.best.asValue := by
  simp only [State.advance, State.cycle, Runtime.published_cycle hresting,
    Runtime.inner_cycle hresting, Runtime.localValue_cycle hresting, List.head?_cons, and_self]

/-- In a round in lockstep a node hears of no seed later than of its own. -/
theorem merit_seed_le_advance {state : mesh.State} {node : mesh.Node}
    (hsound : mesh.Sound graph bound node (state node)) (linked : mesh.Node → mesh.Node → Bool) :
    Merit.of (mesh.seed node).toInt 0 ≤ (state.advance linked node).inner.best.merit := by
  rw [State.advance, State.cycle, Runtime.inner_cycle hsound.resting, ← hsound.seed]
  exact MaxKernel.merit_le_best_run List.mem_cons_self

/-- In a round in lockstep a node hears what a linked node has announced, one link further. -/
theorem merit_heard_le_advance {state : mesh.State} {node other : mesh.Node}
    {linked : mesh.Node → mesh.Node → Bool} {announcement : Announcement} {value hops : ℤ}
    (hresting : (state node).Resting) (hlink : linked other node = true)
    (hhead : (state other).published.head? = some announcement.payload)
    (hmerit : Merit.of value hops ≤ announcement.merit) :
    Merit.of value (hops + 1) ≤ (state.advance linked node).inner.best.merit := by
  have hheard := MaxKernel.mem_heard_iff.2
    ⟨_, mem_values_inbox.2 ⟨other, hlink, hhead⟩, Announcement.heard?_payload announcement⟩
  rw [State.advance, State.cycle, Runtime.inner_cycle hresting]
  apply (Announcement.merit_heard hmerit).trans
  exact MaxKernel.merit_le_best_run (List.mem_cons_of_mem _ (List.mem_cons_of_mem _ hheard))

/-- The merits of all seeds at a node that are at most so many links away, with their distances. -/
def meritsWithin (graph : SimpleGraph mesh.Node) (radius : ℕ) (node : mesh.Node) : Set Merit :=
  {merit | ∃ source : mesh.Node, graph.edist source node ≤ radius ∧
    merit = Merit.of (mesh.seed source).toInt (graph.dist source node)}

/-- In a connected graph the diameter is smaller than the number of nodes, so as many rounds as there
are nodes suffice for all seeds to arrive. -/
theorem diam_lt_size (hconnected : graph.Connected) : graph.diam < mesh.size := by
  have : Nonempty mesh.Node := hconnected.nonempty
  obtain ⟨one, two, hdist⟩ := SimpleGraph.exists_dist_eq_diam (G := graph)
  obtain ⟨path, hpath, hlength⟩ := hconnected.exists_path_of_dist one two
  calc graph.diam = path.length := by rw [hlength, hdist]
    _ < Fintype.card mesh.Node := hpath.length_lt
    _ = mesh.size := Fintype.card_fin mesh.size

/-- Where all nodes are near, the best of their seeds is the largest one with the least distance. -/
theorem largest_of_all_near {best : Announcement} {node : mesh.Node}
    (hbest : IsGreatest (meritsWithin graph bound node) best.merit)
    (hnear : ∀ source, graph.edist source node ≤ bound) :
    IsGreatest (Set.range mesh.seed) best.value ∧
      IsLeast {hops : ℤ | ∃ source : mesh.Node, mesh.seed source = best.value ∧
        hops = graph.dist source node} best.hops.toInt := by
  have hupper (source : mesh.Node) : Merit.of (mesh.seed source).toInt (graph.dist source node) ≤
      Merit.of best.value.toInt best.hops.toInt := hbest.2 ⟨source, hnear source, rfl⟩
  obtain ⟨source, -, hmerit⟩ := hbest.1
  obtain ⟨hvalue, hhops⟩ := Merit.of_inj.1 hmerit
  rw [Int64.toInt_inj] at hvalue
  refine ⟨⟨⟨source, hvalue.symm⟩, ?_⟩, ⟨⟨source, hvalue.symm, hhops⟩, ?_⟩⟩
  · rintro value ⟨other, rfl⟩
    rw [Int64.le_iff_toInt_le]
    rcases Merit.of_le_of.1 (hupper other) with hless | ⟨hsame, -⟩
    · exact hless.le
    · exact hsame.le
  · rintro hops ⟨other, hother, rfl⟩
    rcases Merit.of_le_of.1 (hupper other) with hless | ⟨-, hfar⟩
    · exact absurd (hother ▸ hless) (lt_irrefl _)
    · exact hfar

variable [DecidableRel graph.Adj]

/-- After some rounds in lockstep all nodes are sound, with walks that are shorter than the number of
rounds. -/
theorem sound_lockstep (hrounds : rounds < 2 ^ 62) (node : mesh.Node) :
    mesh.Sound graph (rounds - 1) node (mesh.lockstep (linkedBy graph) rounds node) := by
  induction rounds generalizing node with
  | zero => exact mesh.sound_initial graph 0 node
  | succ rounds ih =>
    have hsound := ih (by omega)
    apply ((hsound node).mono le_rfl (Nat.sub_le rounds 1)).cycle
    · intro payload hpayload
      obtain ⟨other, hlink, hhead⟩ := mem_values_inbox.1 hpayload
      have hpublished := List.mem_of_mem_head? hhead
      obtain ⟨announcement, htraced, hsame⟩ := (hsound other).published payload hpublished
      refine ⟨other, rounds - 1, announcement, linkedBy_iff.1 hlink, ?_, htraced, hsame⟩
      cases rounds with
      | zero => exact absurd hpublished List.not_mem_nil
      | succ earlier => omega
    · omega

/-- A seed has come to the start of a walk from its node after one round more than the walk has
links, unless something better has. -/
theorem merit_le_lockstep {node source : mesh.Node} (walk : graph.Walk node source)
    (hwalk : walk.length ≤ rounds) (hrounds : rounds < 2 ^ 62) :
    Merit.of (mesh.seed source).toInt walk.length ≤
      (mesh.lockstep (linkedBy graph) (rounds + 1) node).inner.best.merit := by
  induction walk generalizing rounds with
  | @nil node => exact merit_seed_le_advance (sound_lockstep hrounds node) _
  | @cons node other source hlink walk ih =>
    rw [SimpleGraph.Walk.length_cons] at hwalk ⊢
    obtain ⟨earlier, rfl⟩ : ∃ earlier, rounds = earlier + 1 := ⟨rounds - 1, by omega⟩
    -- the walk from the linked node is one link shorter, so the seed was there a round before
    have hother := ih (by omega : walk.length ≤ earlier) (by omega)
    have hearlier : earlier < 2 ^ 62 := by omega
    have hsound : mesh.Sound graph (earlier - 1) other
        (mesh.lockstep (linkedBy graph) earlier other) := sound_lockstep hearlier other
    have hshows := (shows_advance hsound.resting (linkedBy graph)).1
    rw [Nat.cast_add, Nat.cast_one]
    exact merit_heard_le_advance (sound_lockstep hrounds node).resting
      (linkedBy_iff.2 hlink.symm) hshows hother

/-- A node holds the best of the seeds that are fewer links away than there were rounds. -/
theorem isGreatest_lockstep (hrounds : rounds + 1 < 2 ^ 62) (node : mesh.Node) :
    IsGreatest (meritsWithin graph rounds node)
      (mesh.lockstep (linkedBy graph) (rounds + 1) node).inner.best.merit := by
  have hupper : (mesh.lockstep (linkedBy graph) (rounds + 1) node).inner.best.merit ∈
      upperBounds (meritsWithin graph rounds node) := by
    rintro merit ⟨source, hnear, rfl⟩
    have hreachable : graph.Reachable node source := by
      apply SimpleGraph.Reachable.symm
      apply SimpleGraph.reachable_of_edist_ne_top
      exact ne_top_of_le_ne_top (ENat.natCast_ne_top rounds) hnear
    obtain ⟨walk, hlength⟩ := hreachable.exists_walk_length_eq_dist
    rw [← hreachable.symm.coe_dist_eq_edist, Nat.cast_le] at hnear
    rw [SimpleGraph.dist_comm, ← hlength] at hnear ⊢
    exact merit_le_lockstep walk hnear (by omega)
  refine ⟨?_, hupper⟩
  have hsound : mesh.Sound graph rounds node (mesh.lockstep (linkedBy graph) (rounds + 1) node) :=
    sound_lockstep hrounds node
  obtain ⟨source, walk, hseed, hlength, hshort⟩ := hsound.best
  have hnear : graph.edist source node ≤ rounds :=
    (SimpleGraph.edist_le walk).trans (Nat.cast_le.2 hshort)
  refine ⟨source, hnear, ?_⟩
  -- the walk that the hops count is a shortest one, for a shorter one would have come first
  have hbest := hupper ⟨source, hnear, rfl⟩
  have hdist := SimpleGraph.dist_le walk
  rw [Announcement.merit, Merit.of_le_of, ← hseed, ← hlength] at hbest
  rw [Announcement.merit, ← hseed, ← hlength]
  have hsame : walk.length = graph.dist source node := by omega
  rw [hsame]

/-- In lockstep on a finite graph a node publishes, after any number of rounds, the best of the seeds
that are fewer links away, with their distances: the larger seed, and then the nearer node. Once
there were more rounds than the diameter of a connected graph has links, all nodes publish the
largest seed and their distance to the nearest node that has it. -/
theorem lockstep_publishes_nearest_best (mesh : Mesh) (graph : SimpleGraph mesh.Node)
    [DecidableRel graph.Adj] :
    (∀ rounds, 1 ≤ rounds → rounds < 2 ^ 62 → ∀ node, ∃ best : Announcement,
      (mesh.lockstep (linkedBy graph) rounds node).published.head? = some best.payload ∧
      (mesh.lockstep (linkedBy graph) rounds node).localValue = best.asValue ∧
      IsGreatest (meritsWithin graph (rounds - 1) node) best.merit) ∧
    (graph.Connected → ∀ rounds, graph.diam < rounds → rounds < 2 ^ 62 → ∀ node,
      ∃ best : Announcement,
      (mesh.lockstep (linkedBy graph) rounds node).published.head? = some best.payload ∧
      (mesh.lockstep (linkedBy graph) rounds node).localValue = best.asValue ∧
      IsGreatest (Set.range mesh.seed) best.value ∧
      IsLeast {hops : ℤ | ∃ source : mesh.Node, mesh.seed source = best.value ∧
        hops = graph.dist source node} best.hops.toInt) := by
  have hpublishes (rounds : ℕ) (hpositive : 1 ≤ rounds) (hrounds : rounds < 2 ^ 62)
      (node : mesh.Node) : ∃ best : Announcement,
      (mesh.lockstep (linkedBy graph) rounds node).published.head? = some best.payload ∧
      (mesh.lockstep (linkedBy graph) rounds node).localValue = best.asValue ∧
      IsGreatest (meritsWithin graph (rounds - 1) node) best.merit := by
    obtain ⟨earlier, rfl⟩ : ∃ earlier, rounds = earlier + 1 := ⟨rounds - 1, by omega⟩
    have hearlier : earlier < 2 ^ 62 := by omega
    have hsound : mesh.Sound graph (earlier - 1) node
        (mesh.lockstep (linkedBy graph) earlier node) := sound_lockstep hearlier node
    obtain ⟨hhead, hvalue⟩ := shows_advance hsound.resting (linkedBy graph)
    exact ⟨_, hhead, hvalue, isGreatest_lockstep hrounds node⟩
  refine ⟨hpublishes, ?_⟩
  intro hconnected rounds hdiameter hrounds node
  obtain ⟨best, hhead, hvalue, hbest⟩ := hpublishes rounds (by omega) hrounds node
  refine ⟨best, hhead, hvalue, largest_of_all_near hbest ?_⟩
  intro source
  have : Nonempty mesh.Node := ⟨node⟩
  have hfinite := SimpleGraph.connected_iff_ediam_ne_top.1 hconnected
  have hdist : graph.dist source node ≤ rounds - 1 := by
    have hwithin := SimpleGraph.dist_le_diam hfinite (u := source) (v := node)
    omega
  rw [← (hconnected source node).coe_dist_eq_edist]
  exact Nat.cast_le.2 hdist

/-- Three nodes, the last of which has the largest seed. -/
def row : Mesh where
  size := 3
  name node := ⟨!["a", "b", "c"] node⟩
  seed := ![5, 1, 9]
  distinct := by decide +kernel

/-- The three nodes stand in a row. -/
def rowGraph : SimpleGraph row.Node := SimpleGraph.pathGraph 3

instance : DecidableRel rowGraph.Adj := fun _ _ =>
  decidable_of_iff _ SimpleGraph.pathGraph_adj.symm

/-- After two rounds the first node of the row publishes the best seed that is one link away, and
after three rounds the largest one of all. -/
theorem row_publishes_nearest_best :
    ((1 ≤ 2 ∧ 2 < 2 ^ 62) ∧ ∃ best : Announcement,
      (row.lockstep (linkedBy rowGraph) 2 (0 : Fin 3)).published.head? = some best.payload ∧
      IsGreatest (meritsWithin rowGraph 1 (0 : Fin 3)) best.merit) ∧
    (rowGraph.Connected ∧ rowGraph.diam < 3 ∧ 3 < 2 ^ 62) ∧ ∃ best : Announcement,
      (row.lockstep (linkedBy rowGraph) 3 (0 : Fin 3)).published.head? = some best.payload ∧
      IsGreatest (Set.range row.seed) best.value ∧
      IsLeast {hops : ℤ | ∃ source : row.Node, row.seed source = best.value ∧
        hops = rowGraph.dist source (0 : Fin 3)} best.hops.toInt := by
  have hconnected : rowGraph.Connected := SimpleGraph.pathGraph_connected 2
  have hdiameter : rowGraph.diam < 3 := diam_lt_size hconnected
  obtain ⟨hnear, hall⟩ := lockstep_publishes_nearest_best row rowGraph
  obtain ⟨best, hhead, -, hbest⟩ := hnear 2 (by decide) (by decide) (0 : Fin 3)
  obtain ⟨largest, hlast, -, hrange, hleast⟩ :=
    hall hconnected 3 hdiameter (by decide) (0 : Fin 3)
  exact ⟨⟨by decide, best, hhead, hbest⟩, ⟨hconnected, hdiameter, by decide⟩,
    largest, hlast, hrange, hleast⟩

end RegionGossip.Mesh
