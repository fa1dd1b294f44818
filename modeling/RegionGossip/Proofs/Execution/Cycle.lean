import RegionGossip.Execution.Mesh

/-!
# One cycle of a node that spreads the largest seed

Neither hook nor round of such a node fails, so a loop that is at the top of a cycle or asleep runs
a whole cycle and sleeps again. The round has seen what it was given, its result is kept, and the
announcement of the new best value is published once.
-/

namespace RegionGossip.Runtime

/-- The first loop of a node is at the top of a cycle or asleep, and nobody has cancelled it. -/
def Resting (runtime : Runtime MaxKernel) : Prop :=
  ∃ phase, runtime.loops = [⟨phase, false⟩] ∧ (phase = .top ∨ phase = .sleeping)

/-- A node that was just told to execute is at the top of its first cycle. -/
theorem resting_started (node : NodeId) (kernel : MaxKernel) : (started node kernel).Resting :=
  ⟨.top, rfl, .inl rfl⟩

variable {runtime : Runtime MaxKernel}

/-- A cycle changes no more than the kernel, the number of rounds, the value that is shown, and what
was done so far. -/
theorem cycle_program (hresting : runtime.Resting) (neighbors : SortedMap NodeId Payload) :
    runtime.cycle MaxKernel.program neighbors 0 =
      { runtime with
        inner := runtime.inner.run neighbors
        executions := runtime.executions + 1
        localValue := (runtime.inner.run neighbors).best.asValue
        loops := [⟨.sleeping, false⟩]
        events := .broadcast (runtime.inner.run neighbors).best.payload ::
          .after (runtime.executions + 1) (runtime.inner.run neighbors).best.asValue ::
          .round runtime.executions neighbors :: .before runtime.executions :: runtime.events } := by
  obtain ⟨phase, hloops, hphase⟩ := hresting
  obtain ⟨_, _, _, _, _, _, loops, _, _⟩ := runtime
  obtain rfl : loops = [⟨phase, false⟩] := hloops
  obtain rfl | rfl := hphase <;> rfl

/-- The loop sleeps after a cycle. -/
theorem resting_cycle (hresting : runtime.Resting) (neighbors : SortedMap NodeId Payload) :
    (runtime.cycle MaxKernel.program neighbors 0).Resting := by
  rw [cycle_program hresting]
  exact ⟨.sleeping, rfl, .inr rfl⟩

/-- A cycle runs the kernel once. -/
theorem inner_cycle (hresting : runtime.Resting) (neighbors : SortedMap NodeId Payload) :
    (runtime.cycle MaxKernel.program neighbors 0).inner = runtime.inner.run neighbors := by
  rw [cycle_program hresting]

/-- A cycle publishes the new best announcement. -/
theorem published_cycle (hresting : runtime.Resting) (neighbors : SortedMap NodeId Payload) :
    (runtime.cycle MaxKernel.program neighbors 0).published =
      (runtime.inner.run neighbors).best.payload :: runtime.published := by
  rw [cycle_program hresting]
  rfl

/-- A cycle shows the new best announcement. -/
theorem localValue_cycle (hresting : runtime.Resting) (neighbors : SortedMap NodeId Payload) :
    (runtime.cycle MaxKernel.program neighbors 0).localValue =
      (runtime.inner.run neighbors).best.asValue := by
  rw [cycle_program hresting]

end RegionGossip.Runtime
