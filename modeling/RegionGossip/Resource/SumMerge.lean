import RegionGossip.SortedMap

/-!
# Sums of nested maps

Two maps of quantities are summed key by key: a key of either map is a key of the sum, and where
both have it the values are summed in turn, down to the numbers at the leaves. The first map gives
the spelling of the keys that both have, and is the left operand of every addition.
-/

namespace RegionGossip

/-- Types whose values can be summed with another one of the same shape. -/
class SumMerge (α : Type) where
  /-- The sum of two values; the first one is the left operand. -/
  sumMerge : α → α → α

export SumMerge (sumMerge)

/-- Numbers are summed by addition. -/
instance (priority := low) {ν : Type} [Add ν] : SumMerge ν := ⟨fun left right => left + right⟩

/-- The value that a sum holds at a key of the second map. -/
def mergeValue {α : Type} [SumMerge α] (value : α) : Option α → α
  | some mine => sumMerge mine value
  | none => value

instance {κ α : Type} [Ord κ] [Std.TransOrd κ] [SumMerge α] : SumMerge (SortedMap κ α) :=
  ⟨fun left right =>
    right.entries.foldl (fun sum entry => sum.upsert entry.1 (mergeValue entry.2)) left⟩

end RegionGossip
