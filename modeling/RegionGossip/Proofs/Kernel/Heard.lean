import Mathlib.Data.Set.Insert
import RegionGossip.Execution.Basic
import RegionGossip.Proofs.Kernel.Merit

/-!
# The best of everything that was heard

A kernel that takes one round after the other keeps only its best announcement, yet nothing is lost
by that: at any time it holds the best of its own seed and of every announcement in every payload of
every round. So it does not matter which neighbour made an announcement, when, and how often, and a
payload that makes none changes nothing. No payload can make a round fail, and a number of hops that
cannot grow any more stays as it is.
-/

namespace RegionGossip

namespace Program

variable {σ : Type}

/-- The results of rounds taken one after the other, and the state they end in; nothing if one of
them fails or panics. -/
def rounds? (program : Program σ) : σ → List RoundContext → Option (List RoundOutput × σ)
  | state, [] => some ([], state)
  | state, context :: later =>
    match program.round context state with
    | (.returned (.ok output), next) =>
      (program.rounds? next later).map fun (outputs, last) => (output :: outputs, last)
    | _ => none

end Program

/-- A payload announces a value and a number of hops when both stand in it as integers. -/
def Payload.Announces (payload : Payload) (value hops : Int64) : Prop :=
  payload.get? "max/value" = some (.int value) ∧ payload.get? "max/hops" = some (.int hops)

/-- The values and numbers of hops that are announced to a node by any neighbour in any of some
rounds. -/
def announced (contexts : List RoundContext) : Set (Int64 × Int64) :=
  {pair | ∃ context ∈ contexts, ∃ payload ∈ context.neighbors.values,
    payload.Announces pair.1 pair.2}

/-- What a node can choose from: its own seed, which has travelled no link, and what was announced,
one link further. A number of hops stays within 64 bits. -/
def meritsOf (seed : Int64) (announcements : Set (Int64 × Int64)) : Set Merit :=
  {merit | merit = Merit.of seed.toInt 0 ∨ ∃ pair ∈ announcements,
    merit = Merit.of pair.1.toInt (min (pair.2.toInt + 1) (2 ^ 63 - 1))}

/-- The result of a round shows an announcement: its value and its hops stand in the local value, and
in the payload for the neighbours, where nothing else stands. -/
def RoundOutput.Shows (output : RoundOutput) (announcement : Announcement) : Prop :=
  output.localValue =
    .map [("hops", .int announcement.hops), ("value", .int announcement.value)] ∧
  ∀ position, output.outbound.get? position =
    if position = "max/hops" then some (.int announcement.hops)
    else if position = "max/value" then some (.int announcement.value)
    else none

namespace Announcement

variable {announcement : Announcement} {payload : Payload}

/-- Announcements of the same merit are the same. -/
theorem merit_inj {one two : Announcement} : one.merit = two.merit ↔ one = two := by
  obtain ⟨value, hops⟩ := one
  obtain ⟨other, more⟩ := two
  rw [merit, merit, Merit.of_inj, Int64.toInt_inj, Int64.toInt_inj, mk.injEq]

/-- What is heard of a payload is what it announces, one link further. -/
theorem heard?_eq_some_iff : heard? payload = some announcement ↔
    ∃ hops, payload.Announces announcement.value hops ∧ announcement.hops = nextHop hops := by
  have hint {found : Option Value} {number : Int64} :
      found.bind Value.asInt? = some number ↔ found = some (.int number) := by
    rcases found with _ | ⟨_ | _ | _ | _ | _ | _ | _⟩ <;> simp [Value.asInt?]
  obtain ⟨value, hops⟩ := announcement
  simp only [heard?, Option.bind_eq_bind, ← Option.bind_assoc, Option.bind_eq_some_iff, hint]
  constructor
  · rintro ⟨found, hvalue, number, hhops, hsame⟩
    obtain ⟨rfl, rfl⟩ := mk.inj (Option.some.inj hsame)
    exact ⟨number, ⟨hvalue, hhops⟩, rfl⟩
  · rintro ⟨number, ⟨hvalue, hhops⟩, rfl⟩
    exact ⟨value, hvalue, number, hhops, rfl⟩

/-- What a round publishes of an announcement, and what it shows, are the two numbers. -/
theorem shows_output (announcement : Announcement) :
    RoundOutput.Shows ⟨announcement.asValue, announcement.payload⟩ announcement := by
  constructor
  · have hkeys : compare "hops" "value" = .lt := by decide
    simp [asValue, Value.normalize, Value.normalizeEntries, SortedMap.ofList, SortedMap.insert,
      SortedMap.upsert, SortedMap.upsertEntry, SortedMap.empty, hkeys]
  · exact announcement.get?_payload

end Announcement

namespace MaxKernel

variable {kernel : MaxKernel}

/-- The kernel after some rounds. -/
def after (kernel : MaxKernel) (contexts : List RoundContext) : MaxKernel :=
  contexts.foldl (fun kernel context => kernel.run context.neighbors) kernel

/-- No round fails, whatever the payloads are, and the last one publishes what the kernel holds in
the end. -/
theorem rounds?_program (kernel : MaxKernel) (contexts : List RoundContext) :
    ∃ outputs, program.rounds? kernel contexts = some (outputs, kernel.after contexts) ∧
      outputs.length = contexts.length ∧
      ∀ output ∈ outputs.getLast?, output = (kernel.after contexts).output := by
  induction contexts generalizing kernel with
  | nil => exact ⟨[], rfl, rfl, fun _ hlast => nomatch hlast⟩
  | cons context later ih =>
    obtain ⟨outputs, hrounds, hlength, hlast⟩ := ih (kernel.run context.neighbors)
    refine ⟨(kernel.run context.neighbors).output :: outputs, ?_, congrArg (· + 1) hlength, ?_⟩
    · show ((program.rounds? (kernel.run context.neighbors) later).map fun (outputs, last) =>
        ((kernel.run context.neighbors).output :: outputs, last)) = _
      rw [hrounds]
      rfl
    · rw [List.getLast?_cons]
      rintro output ⟨⟩
      cases hempty : outputs.getLast? with
      | some last => exact hlast last hempty
      | none =>
        rw [List.getLast?_eq_none_iff] at hempty
        rw [hempty, List.length_nil, eq_comm, List.length_eq_zero_iff] at hlength
        rw [hlength]
        rfl

/-- The announcements of one round are those that the kernel hears, one link further. -/
theorem exists_announced_iff {context : RoundContext} {merit : Merit} :
    (∃ pair ∈ announced [context],
      merit = Merit.of pair.1.toInt (min (pair.2.toInt + 1) (2 ^ 63 - 1))) ↔
      ∃ announcement ∈ heard context.neighbors, announcement.merit = merit := by
  constructor
  · rintro ⟨⟨value, hops⟩, ⟨_, hmem, payload, hpayload, hannounces⟩, rfl⟩
    obtain rfl := List.mem_singleton.1 hmem
    refine ⟨⟨value, Announcement.nextHop hops⟩, ?_, ?_⟩
    · exact mem_heard_iff.2
        ⟨payload, hpayload, Announcement.heard?_eq_some_iff.2 ⟨hops, hannounces, rfl⟩⟩
    · rw [Announcement.merit, Announcement.toInt_nextHop]
  · rintro ⟨⟨value, _⟩, hmem, rfl⟩
    obtain ⟨payload, hpayload, hheard⟩ := mem_heard_iff.1 hmem
    obtain ⟨hops, hannounces, rfl⟩ := Announcement.heard?_eq_some_iff.1 hheard
    refine ⟨(value, hops), ⟨context, List.mem_singleton.2 rfl, payload, hpayload, hannounces⟩, ?_⟩
    rw [Announcement.merit, Announcement.toInt_nextHop]

/-- What can be chosen from two sets of announcements can be chosen from one of them. -/
theorem mem_meritsOf_union {seed : Int64} {one two : Set (Int64 × Int64)} {merit : Merit} :
    merit ∈ meritsOf seed (one ∪ two) ↔ merit ∈ meritsOf seed one ∨ ∃ pair ∈ two,
      merit = Merit.of pair.1.toInt (min (pair.2.toInt + 1) (2 ^ 63 - 1)) := by
  simp only [meritsOf, Set.mem_ofPred_eq, Set.mem_union, or_and_right, exists_or, or_assoc]

/-- A round adds what it hears to what the kernel has chosen from. -/
theorem isGreatest_run {announcements : Set (Int64 × Int64)}
    (hbest : IsGreatest (meritsOf kernel.seed announcements) kernel.best.merit)
    (context : RoundContext) :
    IsGreatest (meritsOf kernel.seed (announcements ∪ announced [context]))
      (kernel.run context.neighbors).best.merit := by
  constructor
  · rw [mem_meritsOf_union, exists_announced_iff]
    rcases List.mem_cons.1 (kernel.best_run_mem context.neighbors) with hseed | hlater
    · rw [hseed]
      exact .inl (.inl rfl)
    · rcases List.mem_cons.1 hlater with hkept | hheard
      · rw [hkept]
        exact .inl hbest.1
      · exact .inr ⟨_, hheard, rfl⟩
  · intro merit hmerit
    rw [mem_meritsOf_union, exists_announced_iff] at hmerit
    rcases hmerit with hbefore | ⟨announcement, hheard, rfl⟩
    · exact (hbest.2 hbefore).trans (kernel.best_le_best_run context.neighbors)
    · exact merit_le_best_run (List.mem_cons_of_mem _ (List.mem_cons_of_mem _ hheard))

/-- The announcements of several rounds are those of the first one and those of the others. -/
theorem announced_cons (context : RoundContext) (later : List RoundContext) :
    announced (context :: later) = announced [context] ∪ announced later := by
  ext pair
  simp [announced, or_and_right, exists_or]

/-- After any rounds a kernel holds the best of what it has chosen from before and of what it has
heard since. -/
theorem isGreatest_after {announcements : Set (Int64 × Int64)}
    (hbest : IsGreatest (meritsOf kernel.seed announcements) kernel.best.merit)
    (contexts : List RoundContext) :
    (kernel.after contexts).seed = kernel.seed ∧
      IsGreatest (meritsOf kernel.seed (announcements ∪ announced contexts))
        (kernel.after contexts).best.merit := by
  induction contexts generalizing kernel announcements with
  | nil => simpa [announced, after] using hbest
  | cons context later ih =>
    rw [announced_cons, ← Set.union_assoc]
    exact ih (isGreatest_run hbest context)

/-- A node that knows its own seed only holds the best of that. -/
theorem isGreatest_ofSeed (seed : Int64) :
    IsGreatest (meritsOf seed ∅) (ofSeed seed).best.merit := by
  have hseed : (ofSeed seed).best.merit = Merit.of seed.toInt 0 := rfl
  simp [meritsOf, hseed, isGreatest_singleton]

/-- No sequence of rounds fails, whatever is in the payloads. The kernel ends with the best of its
own seed and of everything that was announced to it in any round, one link further, and the last
round publishes and shows just that. Other rounds in which the same was announced, by whichever
neighbours, in whatever order and however often, lead to the same kernel and the same result. -/
theorem best_of_everything_heard (seed : Int64) (contexts : List RoundContext) :
    ∃ outputs kernel, program.rounds? (ofSeed seed) contexts = some (outputs, kernel) ∧
      outputs.length = contexts.length ∧
      IsGreatest (meritsOf seed (announced contexts)) kernel.best.merit ∧
      (∀ output ∈ outputs.getLast?, output.Shows kernel.best) ∧
      ∀ others, announced others = announced contexts →
        ∃ results, program.rounds? (ofSeed seed) others = some (results, kernel) ∧
          ∀ output ∈ outputs.getLast?, ∀ result ∈ results.getLast?, result = output := by
  have hholds (rounds : List RoundContext) :
      ((ofSeed seed).after rounds).seed = seed ∧
        IsGreatest (meritsOf seed (announced rounds)) ((ofSeed seed).after rounds).best.merit := by
    have hseed : IsGreatest (meritsOf (ofSeed seed).seed ∅) (ofSeed seed).best.merit :=
      isGreatest_ofSeed seed
    have hafter := isGreatest_after hseed rounds
    rwa [Set.empty_union] at hafter
  obtain ⟨outputs, hrounds, hlength, hlast⟩ := rounds?_program (ofSeed seed) contexts
  refine ⟨outputs, _, hrounds, hlength, (hholds contexts).2, ?_, ?_⟩
  · intro output houtput
    rw [hlast output houtput]
    exact Announcement.shows_output _
  · intro others hsame
    obtain ⟨results, hresults, -, hresult⟩ := rounds?_program (ofSeed seed) others
    have hbest : ((ofSeed seed).after others).best = ((ofSeed seed).after contexts).best := by
      rw [← Announcement.merit_inj]
      exact (hsame ▸ (hholds others).2).unique (hholds contexts).2
    have hkernel : (ofSeed seed).after others = (ofSeed seed).after contexts := by
      rw [mk.injEq]
      exact ⟨(hholds others).1.trans (hholds contexts).1.symm, hbest⟩
    rw [hkernel] at hresults hresult
    refine ⟨results, hresults, fun output houtput result hmem => ?_⟩
    rw [hresult result hmem, hlast output houtput]

/-- Two rounds of a node. One neighbour announces a value with the largest number of hops, another one
has a text where the value should be, and later a third one knows a shorter way, with a number of hops
that no kernel would begin with. -/
def hearsay : List RoundContext := [
  ⟨⟨"a"⟩, 0, .ofList [
    (⟨"b"⟩, .ofEntries [("max/value", .int 9), ("max/hops", .int Int64.maxValue)]),
    (⟨"c"⟩, .ofEntries [("max/value", .text "big"), ("max/hops", .int 0)])]⟩,
  ⟨⟨"a"⟩, 1, .ofList [
    (⟨"D"⟩, .ofEntries [("max/hops", .int (-3)), ("max/value", .int 9), ("more", .null)])]⟩]

/-- The node ends with the shorter way, also when it hears everything twice and the last things
first. -/
theorem hearsay_repeated :
    announced (hearsay.reverse ++ hearsay) = announced hearsay ∧
    ∃ outputs results kernel, program.rounds? (ofSeed 5) hearsay = some (outputs, kernel) ∧
      program.rounds? (ofSeed 5) (hearsay.reverse ++ hearsay) = some (results, kernel) ∧
      kernel.best = ⟨9, -2⟩ := by
  have hsame : announced (hearsay.reverse ++ hearsay) = announced hearsay := by
    ext pair
    simp [announced]
  have hvalue : (program.rounds? (ofSeed 5) hearsay).map (·.2.best) = some ⟨9, -2⟩ := by
    decide +kernel
  obtain ⟨outputs, kernel, hrounds, -, -, -, hothers⟩ := best_of_everything_heard 5 hearsay
  obtain ⟨results, hresults, -⟩ := hothers _ hsame
  rw [hrounds] at hvalue
  exact ⟨hsame, outputs, results, kernel, hrounds, hresults, Option.some.inj hvalue⟩

end MaxKernel

end RegionGossip
