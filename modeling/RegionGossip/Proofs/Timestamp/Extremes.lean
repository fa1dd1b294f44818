import Mathlib.Algebra.Tropical.Basic
import Mathlib.Data.Prod.Lex
import RegionGossip.Timestamp

/-!
# The earliest and the latest of some times

Times are ordered lexicographically, so the earlier of two is their minimum and the later one their
maximum. A time that may be missing stands for an element of the tropical numbers over this order,
where the minimum is the addition and the missing time its zero; the latest time does the same over
the reversed order.
-/

namespace RegionGossip.Timestamp

open Tropical

/-- The place of a time in the lexicographic order of seconds and parts of a second. -/
def instant (time : Timestamp) : Int ×ₗ Nat := toLex (time.seconds, time.nanos)

/-- Different times are at different places. -/
theorem instant_injective : Function.Injective instant := by
  rintro ⟨seconds, nanos⟩ ⟨others, parts⟩ hsame
  obtain ⟨rfl, rfl⟩ := Prod.mk.inj (toLex.injective hsame)
  rfl

/-- A time precedes another one when its place is smaller. -/
theorem precedes_iff {left right : Timestamp} :
    left.precedes right = true ↔ left.instant < right.instant := by
  simp [precedes, instant, Prod.Lex.toLex_lt_toLex]

/-- The earlier of two times is at the smaller place. -/
theorem instant_earlier (left right : Timestamp) :
    (left.earlier right).instant = min left.instant right.instant := by
  rw [earlier]
  split
  · rename_i hprecedes
    exact (min_eq_right (precedes_iff.1 hprecedes).le).symm
  · rename_i hprecedes
    exact (min_eq_left (not_lt.1 (mt precedes_iff.2 hprecedes))).symm

/-- The later of two times is at the greater place. -/
theorem instant_later (left right : Timestamp) :
    (left.later right).instant = max left.instant right.instant := by
  rw [later]
  split
  · rename_i hprecedes
    exact (max_eq_right (precedes_iff.1 hprecedes).le).symm
  · rename_i hprecedes
    exact (max_eq_left (not_lt.1 (mt precedes_iff.2 hprecedes))).symm

section Operand

variable {ι : Type} {place : Timestamp → ι}

/-- A time that may be missing, as an operand of a minimum. -/
def operand (place : Timestamp → ι) : Option Timestamp → Tropical (WithTop ι)
  | some time => trop (place time : WithTop ι)
  | none => trop ⊤

/-- Times at different places are different operands, and so is a missing one. -/
theorem operand_injective (hplace : Function.Injective place) :
    Function.Injective (operand place) := by
  intro left right hsame
  cases left with
  | none =>
    cases right with
    | none => rfl
    | some other => exact absurd (trop_injective hsame).symm WithTop.coe_ne_top
  | some time =>
    cases right with
    | none => exact absurd (trop_injective hsame) WithTop.coe_ne_top
    | some other => rw [hplace (WithTop.coe_injective (trop_injective hsame))]

/-- A choice of the smaller place is the tropical sum of the operands. -/
theorem operand_merge [LinearOrder ι] {choose : Timestamp → Timestamp → Timestamp}
    (hchoose : ∀ left right, place (choose left right) = min (place left) (place right))
    (left right : Option Timestamp) :
    operand place (left.merge choose right) = operand place left + operand place right := by
  cases left with
  | none =>
    cases right <;> exact (zero_add _).symm
  | some time =>
    cases right with
    | none => exact (add_zero _).symm
    | some other =>
      rw [Option.merge, operand, hchoose, WithTop.coe_min]
      exact trop_inf _ _

end Operand

/-- A time that may be missing, as an operand of the earliest time. -/
def asEarliest : Option Timestamp → Tropical (WithTop (Int ×ₗ Nat)) := operand instant

/-- A time that may be missing, as an operand of the latest time. -/
def asLatest : Option Timestamp → Tropical (WithTop (Int ×ₗ Nat)ᵒᵈ) :=
  operand (OrderDual.toDual ∘ instant)

/-- Different times are different operands of the earliest time. -/
theorem asEarliest_injective : Function.Injective asEarliest := operand_injective instant_injective

/-- Different times are different operands of the latest time. -/
theorem asLatest_injective : Function.Injective asLatest :=
  operand_injective (OrderDual.toDual.injective.comp instant_injective)

/-- The earliest of two times is the earlier one, where neither is missing. -/
theorem earliest_eq_merge (left right : Option Timestamp) :
    earliest left right = left.merge earlier right := by
  cases left <;> cases right <;> rfl

/-- The latest of two times is the later one, where neither is missing. -/
theorem latest_eq_merge (left right : Option Timestamp) :
    latest left right = left.merge later right := by
  cases left <;> cases right <;> rfl

/-- The earliest time is the tropical sum. -/
theorem asEarliest_earliest (left right : Option Timestamp) :
    asEarliest (earliest left right) = asEarliest left + asEarliest right := by
  rw [earliest_eq_merge]
  exact operand_merge instant_earlier left right

/-- The latest time is the tropical sum over the reversed order. -/
theorem asLatest_latest (left right : Option Timestamp) :
    asLatest (latest left right) = asLatest left + asLatest right := by
  rw [latest_eq_merge]
  refine operand_merge (fun one two => ?_) left right
  exact congrArg OrderDual.toDual (instant_later one two)

end RegionGossip.Timestamp
