import Mathlib.Algebra.Order.Ring.Int
import Mathlib.Data.Prod.Lex
import Mathlib.Order.Bounds.Basic
import RegionGossip.Kernel
import RegionGossip.Proofs.SortedMap.Lookup

/-!
# How good an announcement is

A larger value is better and, between equal values, fewer hops. The merit of an announcement is the
pair of the two in that order, so it is compared without regard to the width of the numbers. A round
ends with one of the announcements it had to choose from, and none of them has a greater merit.
-/

namespace RegionGossip

/-- A value and a number of hops, ordered by larger values and then by fewer hops. -/
abbrev Merit := ℤ ×ₗ ℤᵒᵈ

/-- The merit of a value that has travelled a number of links. -/
def Merit.of (value hops : ℤ) : Merit := toLex (value, OrderDual.toDual hops)

/-- A merit is at most another one if its value is smaller, or equal with at least as many hops. -/
theorem Merit.of_le_of {value other hops more : ℤ} :
    Merit.of value hops ≤ Merit.of other more ↔ value < other ∨ value = other ∧ more ≤ hops :=
  Prod.Lex.toLex_le_toLex

/-- Merits are equal when both their numbers are. -/
theorem Merit.of_inj {value other hops more : ℤ} :
    Merit.of value hops = Merit.of other more ↔ value = other ∧ hops = more := Prod.mk_inj

namespace Announcement

/-- The merit of an announcement. -/
def merit (announcement : Announcement) : Merit :=
  Merit.of announcement.value.toInt announcement.hops.toInt

/-- Announcements are compared by their merits. -/
theorem atLeast_iff {one two : Announcement} : one.atLeast two = true ↔ two.merit ≤ one.merit := by
  rw [merit, merit, Merit.of_le_of, atLeast, Bool.or_eq_true, Bool.and_eq_true, decide_eq_true_iff,
    beq_iff_eq, decide_eq_true_iff, Int64.lt_iff_toInt_lt, Int64.le_iff_toInt_le, Int64.toInt_inj]

/-- The better of two announcements is one of them. -/
theorem better_eq_or (one two : Announcement) : better one two = one ∨ better one two = two := by
  rw [better]
  split
  · exact .inr rfl
  · exact .inl rfl

/-- The better of two announcements has the greater merit. -/
theorem merit_better (one two : Announcement) :
    (better one two).merit = max one.merit two.merit := by
  rw [better]
  split
  · rename_i hbetter
    rw [max_eq_right (atLeast_iff.1 hbetter)]
  · rename_i hworse
    rw [atLeast_iff, not_le] at hworse
    rw [max_eq_left hworse.le]

/-- The best of several announcements is one of them. -/
theorem foldl_better_mem (first : Announcement) (others : List Announcement) :
    others.foldl better first ∈ first :: others := by
  induction others generalizing first with
  | nil => exact List.mem_singleton.2 rfl
  | cons next rest ih =>
    rw [List.foldl_cons]
    have hmem := ih (better first next)
    rcases better_eq_or first next with hfirst | hnext
    · rw [hfirst] at hmem ⊢
      exact List.mem_cons.2 ((List.mem_cons.1 hmem).imp_right (List.mem_cons_of_mem _))
    · rw [hnext] at hmem ⊢
      exact List.mem_cons_of_mem _ hmem

/-- The best of several announcements has the greatest merit. -/
theorem merit_le_foldl_better {first announcement : Announcement} {others : List Announcement}
    (hmem : announcement ∈ first :: others) :
    announcement.merit ≤ (others.foldl better first).merit := by
  induction others generalizing first announcement with
  | nil => rw [List.mem_singleton.1 hmem, List.foldl_nil]
  | cons next rest ih =>
    rw [List.foldl_cons]
    have hbetter : max first.merit next.merit ≤ (rest.foldl better (better first next)).merit := by
      rw [← merit_better]
      exact ih List.mem_cons_self
    rcases List.mem_cons.1 hmem with rfl | hothers
    · exact (le_max_left _ _).trans hbetter
    · rcases List.mem_cons.1 hothers with rfl | hrest
      · exact (le_max_right _ _).trans hbetter
      · exact ih (List.mem_cons_of_mem _ hrest)

/-- One link more is one hop more, up to the largest number. -/
theorem toInt_nextHop (hops : Int64) :
    (nextHop hops).toInt = min (hops.toInt + 1) (2 ^ 63 - 1) := by
  have hmost : hops.toInt ≤ 2 ^ 63 - 1 := Int64.toInt_maxValue ▸ hops.toInt_le
  have hleast := hops.le_toInt
  rw [nextHop]
  split
  · rename_i hmax
    rw [beq_iff_eq.1 hmax, Int64.toInt_maxValue]
    omega
  · rename_i hmax
    have hne : hops.toInt ≠ 2 ^ 63 - 1 := by
      rw [← Int64.toInt_maxValue, Ne, Int64.toInt_inj]
      simpa using hmax
    rw [Int64.toInt_add, Int64.toInt_one, Int.bmod_eq_of_le (by omega) (by omega)]
    omega

/-- The payload of an announcement holds its value and its hops, and nothing else. -/
theorem get?_payload (announcement : Announcement) (position : String) :
    announcement.payload.get? position =
      if position = hopsKey then some (.int announcement.hops)
      else if position = valueKey then some (.int announcement.value)
      else none := by
  have hsame {key : String} : compare position key = .eq ↔ position = key :=
    Std.LawfulEqOrd.compare_eq_iff_eq
  show ((SortedMap.insert ∅ valueKey (Value.int announcement.value)).insert hopsKey
    (.int announcement.hops)).get? position = _
  rw [SortedMap.get?_insert, SortedMap.get?_insert, SortedMap.get?_empty]
  simp only [hsame]

/-- A neighbour hears an announcement one link further. -/
theorem heard?_payload (announcement : Announcement) :
    heard? announcement.payload = some ⟨announcement.value, nextHop announcement.hops⟩ := by
  have hkeys : valueKey ≠ hopsKey := by decide
  rw [heard?, get?_payload, get?_payload, if_neg hkeys, if_pos rfl, if_pos rfl]
  rfl

/-- An announcement that is at least as good as a value with some hops is heard as one that is at
least as good as the value with one hop more. -/
theorem merit_heard {announcement : Announcement} {value hops : ℤ}
    (hmerit : Merit.of value hops ≤ announcement.merit) :
    Merit.of value (hops + 1) ≤
      (⟨announcement.value, nextHop announcement.hops⟩ : Announcement).merit := by
  rw [merit, Merit.of_le_of] at hmerit ⊢
  rw [toInt_nextHop]
  exact hmerit.imp id (And.imp id (by omega))

end Announcement

namespace MaxKernel

open Announcement (merit better heard?)

variable {kernel : MaxKernel} {neighbors : SortedMap NodeId Payload} {announcement : Announcement}

/-- What a round chooses from: the own seed, the best so far, and what the neighbours announce. -/
def candidates (kernel : MaxKernel) (neighbors : SortedMap NodeId Payload) : List Announcement :=
  ⟨kernel.seed, 0⟩ :: kernel.best :: heard neighbors

/-- A neighbour's announcement is what one of the payloads says. -/
theorem mem_heard_iff :
    announcement ∈ heard neighbors ↔
      ∃ payload ∈ neighbors.values, heard? payload = some announcement := List.mem_filterMap

/-- A round chooses one of its candidates. -/
theorem best_run_mem (kernel : MaxKernel) (neighbors : SortedMap NodeId Payload) :
    (kernel.run neighbors).best ∈ kernel.candidates neighbors :=
  Announcement.foldl_better_mem _ _

/-- No candidate of a round is better than the one it chooses. -/
theorem merit_le_best_run (hmem : announcement ∈ kernel.candidates neighbors) :
    announcement.merit ≤ (kernel.run neighbors).best.merit :=
  Announcement.merit_le_foldl_better hmem

/-- A round never makes the best announcement worse. -/
theorem best_le_best_run (kernel : MaxKernel) (neighbors : SortedMap NodeId Payload) :
    kernel.best.merit ≤ (kernel.run neighbors).best.merit :=
  merit_le_best_run (List.mem_cons_of_mem _ List.mem_cons_self)

end MaxKernel

end RegionGossip
