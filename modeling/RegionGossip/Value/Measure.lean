import RegionGossip.Value

/-!
# How large a value is

The number of values inside one another, and the number of values altogether. A value without
children has depth one, and so has an empty container.
-/

namespace RegionGossip.Value

mutual

/-- The length of the longest way from a value down to one without children. -/
def depth : Value → Nat
  | .list items => depthOfItems items + 1
  | .map entries => depthOfEntries entries + 1
  | _ => 1

/-- The depth of the deepest item. -/
def depthOfItems : List Value → Nat
  | [] => 0
  | item :: rest => max item.depth (depthOfItems rest)

/-- The depth of the deepest entry. -/
def depthOfEntries : List (String × Value) → Nat
  | [] => 0
  | (_, value) :: rest => max value.depth (depthOfEntries rest)

end

mutual

/-- The number of values that a value consists of, itself included. -/
def count : Value → Nat
  | .list items => countOfItems items + 1
  | .map entries => countOfEntries entries + 1
  | _ => 1

/-- The number of values that some items consist of. -/
def countOfItems : List Value → Nat
  | [] => 0
  | item :: rest => item.count + countOfItems rest

/-- The number of values that some entries consist of. -/
def countOfEntries : List (String × Value) → Nat
  | [] => 0
  | (_, value) :: rest => value.count + countOfEntries rest

end

end RegionGossip.Value
