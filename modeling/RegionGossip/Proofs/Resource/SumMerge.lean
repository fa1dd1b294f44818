import Mathlib.Algebra.Group.Pi.Basic
import Mathlib.Algebra.Group.WithOne.Basic
import RegionGossip.Proofs.SortedMap.Equal
import RegionGossip.Proofs.SortedMap.Update
import RegionGossip.Resource.SumMerge

/-!
# Summing maps is addition of functions

A map of quantities stands for the function from a key to the quantity that it holds, with a zero of
its own for keys that it does not hold. An absent key and a key with a zero quantity, or with an
empty map, stay different in this reading. Equal maps are those that stand for the same function,
and the sum of two maps stands for the sum of their functions, at every depth of nesting. So maps
inherit the laws of addition from the numbers at their leaves.
-/

namespace RegionGossip

open Std

/-- Summing up is addition in a commutative semigroup, and values are equal when they stand for the
same element of it. -/
class LawfulSumMerge (α : Type) [BEq α] [SumMerge α] (M : outParam Type)
    [AddCommSemigroup M] where
  /-- What a value stands for. -/
  amount : α → M
  beq_iff_amount (left right : α) : (left == right) = true ↔ amount left = amount right
  amount_sumMerge (left right : α) : amount (sumMerge left right) = amount left + amount right

export LawfulSumMerge (amount beq_iff_amount amount_sumMerge)

/-- Exact numbers stand for themselves. -/
instance (priority := low) {ν : Type} [AddCommSemigroup ν] [BEq ν] [LawfulBEq ν] :
    LawfulSumMerge ν ν where
  amount := id
  beq_iff_amount _ _ := beq_iff_eq
  amount_sumMerge _ _ := rfl

namespace SortedMap

variable {κ : Type} {α : Type} [Ord κ] [TransOrd κ] [SumMerge α]

/-- Summing the entries of an increasing row into a map sums the answers at every key. -/
theorem get?_foldl_mergeValue {entries : List (κ × α)} (hincreasing : Increasing entries)
    (map : SortedMap κ α) (key : κ) :
    (entries.foldl (fun sum entry => sum.upsert entry.1 (mergeValue entry.2)) map).get? key =
      (map.get? key).merge sumMerge (lookupEntry entries key) := by
  induction entries generalizing map with
  | nil => cases hheld : map.get? key <;> exact hheld
  | cons head rest ih =>
    obtain ⟨held, value⟩ := head
    rw [List.foldl_cons, ih (List.pairwise_cons.1 hincreasing).2, get?_upsert, lookupEntry_cons]
    by_cases hkey : compare key held = .eq
    · rw [if_pos hkey, if_pos hkey, lookupEntry_tail_of_eq hincreasing hkey, map.get?_congr hkey]
      cases map.get? held <;> rfl
    · rw [if_neg hkey, if_neg hkey]

/-- A sum holds the keys of both maps, and at a key of both it holds the sum of their values. -/
theorem get?_sumMerge (left right : SortedMap κ α) (key : κ) :
    (sumMerge left right).get? key = (left.get? key).merge sumMerge (right.get? key) :=
  get?_foldl_mergeValue right.increasing left key

/-- Summing a row of entries into a map spells new keys as the row does. -/
theorem spelling?_foldl_mergeValue (entries : List (κ × α)) (map : SortedMap κ α) (key : κ) :
    (entries.foldl (fun sum entry => sum.upsert entry.1 (mergeValue entry.2)) map).spelling? key =
      (map.spelling? key).or ((findEntry entries key).map Prod.fst) := by
  induction entries generalizing map with
  | nil => exact Option.or_none.symm
  | cons head rest ih =>
    obtain ⟨held, value⟩ := head
    rw [List.foldl_cons, ih, spelling?_upsert, Option.or_assoc, findEntry_cons]
    split <;> rfl

/-- A sum spells a key as the left map does, if it has the key, and otherwise as the right one
does. -/
theorem spelling?_sumMerge (left right : SortedMap κ α) (key : κ) :
    (sumMerge left right).spelling? key = (left.spelling? key).or (right.spelling? key) :=
  spelling?_foldl_mergeValue right.entries left key

/-- A key is held by a sum when one of the maps holds it. -/
theorem contains_sumMerge (left right : SortedMap κ α) (key : κ) :
    (sumMerge left right).contains key = (left.contains key || right.contains key) := by
  rw [contains_eq_isSome, contains_eq_isSome, contains_eq_isSome, get?_sumMerge]
  cases left.get? key <;> cases right.get? key <;> rfl

variable [BEq α] {M : Type} [AddCommSemigroup M] [LawfulSumMerge α M]

/-- What an answer stands for; no answer is the zero that no value stands for. -/
def heldAmount : Option α → WithZero M
  | some value => (amount value : M)
  | none => 0

/-- Answers are equal when they stand for the same. -/
theorem beq_iff_heldAmount (left right : Option α) :
    (left == right) = true ↔ heldAmount left = heldAmount right := by
  cases left with
  | none =>
    cases right with
    | none => simp [heldAmount]
    | some value => simp [heldAmount]
  | some value =>
    cases right with
    | none => simp [heldAmount]
    | some other => simp [heldAmount, beq_iff_amount]

/-- Summed answers stand for the sum. -/
theorem heldAmount_merge (left right : Option α) :
    heldAmount (left.merge sumMerge right) = heldAmount left + heldAmount right := by
  cases left with
  | none => cases right <;> simp [heldAmount, Option.merge]
  | some value =>
    cases right with
    | none => simp [heldAmount, Option.merge]
    | some other => simp [heldAmount, Option.merge, amount_sumMerge]

/-- A map stands for the function that gives what it holds at every key. -/
instance : LawfulSumMerge (SortedMap κ α) (κ → WithZero M) where
  amount map key := heldAmount (map.get? key)
  beq_iff_amount left right := by
    rw [beq_iff_get?, funext_iff]
    exact forall_congr' fun key => beq_iff_heldAmount _ _
  amount_sumMerge left right := by
    funext key
    rw [Pi.add_apply, get?_sumMerge, heldAmount_merge]

end SortedMap

end RegionGossip
