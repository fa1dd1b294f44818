/-!
# Maps kept in key order

A map is its list of entries, with the keys strictly increasing. Two keys that compare as equal are
the same key although they may be spelled differently, and every operation that finds a key present
leaves its spelling as it was. The order proof travels with the entries, so an operation on a map
never has to ask whether its argument is sorted.
-/

namespace RegionGossip

universe u v w

/-- Entries whose keys strictly increase. -/
def Increasing {κ : Type u} {α : Type v} [Ord κ] (entries : List (κ × α)) : Prop :=
  entries.Pairwise (fun left right => compare left.1 right.1 = .lt)

/-- A finite map, held as its entries in increasing key order. -/
structure SortedMap (κ : Type u) (α : Type v) [Ord κ] where
  entries : List (κ × α)
  increasing : Increasing entries

namespace SortedMap

variable {κ : Type u} {α : Type v} {β : Type w} [Ord κ]

/-- The value at a key becomes a function of the value held there; a new key takes its place in the
order. -/
def upsertEntry (key : κ) (change : Option α → α) : List (κ × α) → List (κ × α)
  | [] => [(key, change none)]
  | (other, held) :: rest =>
    match compare key other with
    | .lt => (key, change none) :: (other, held) :: rest
    | .eq => (other, change (some held)) :: rest
    | .gt => (other, held) :: upsertEntry key change rest

/-- Every key of an updated list is the new key or an old one. -/
theorem fst_mem_upsertEntry {key : κ} {change : Option α → α} {entries : List (κ × α)}
    {entry : κ × α} (mem : entry ∈ upsertEntry key change entries) :
    entry.1 = key ∨ ∃ old ∈ entries, entry.1 = old.1 := by
  induction entries with
  | nil => simp_all [upsertEntry]
  | cons head rest ih =>
    obtain ⟨other, held⟩ := head
    rw [upsertEntry] at mem
    split at mem
    · rcases List.mem_cons.1 mem with same | old
      · exact .inl (by rw [same])
      · exact .inr ⟨entry, old, rfl⟩
    · rcases List.mem_cons.1 mem with same | old
      · exact .inr ⟨(other, held), List.mem_cons_self, by rw [same]⟩
      · exact .inr ⟨entry, List.mem_cons_of_mem _ old, rfl⟩
    · rcases List.mem_cons.1 mem with same | old
      · exact .inr ⟨(other, held), List.mem_cons_self, by rw [same]⟩
      · rcases ih old with isKey | ⟨found, foundMem, sameKey⟩
        · exact .inl isKey
        · exact .inr ⟨found, List.mem_cons_of_mem _ foundMem, sameKey⟩

/-- Updating a key keeps the keys increasing. -/
theorem increasing_upsertEntry [Std.TransOrd κ] (key : κ) (change : Option α → α)
    {entries : List (κ × α)} (increasing : Increasing entries) :
    Increasing (upsertEntry key change entries) := by
  induction entries with
  | nil => simp [upsertEntry, Increasing]
  | cons head rest ih =>
    obtain ⟨other, held⟩ := head
    obtain ⟨below, tail⟩ := List.pairwise_cons.1 increasing
    rw [upsertEntry]
    split
    · rename_i before
      refine List.pairwise_cons.2 ⟨fun entry mem => ?_, increasing⟩
      rcases List.mem_cons.1 mem with same | old
      · rw [same]; exact before
      · exact Std.TransCmp.lt_trans before (below entry old)
    · exact List.pairwise_cons.2 ⟨below, tail⟩
    · rename_i after
      refine List.pairwise_cons.2 ⟨fun entry mem => ?_, ih tail⟩
      rcases fst_mem_upsertEntry mem with isKey | ⟨old, oldMem, sameKey⟩
      · show compare other entry.1 = .lt
        rw [isKey]
        exact Std.OrientedCmp.lt_of_gt after
      · show compare other entry.1 = .lt
        rw [sameKey]
        exact below old oldMem

/-- The map without entries. -/
def empty : SortedMap κ α := ⟨[], List.Pairwise.nil⟩

instance : EmptyCollection (SortedMap κ α) := ⟨empty⟩

instance : Inhabited (SortedMap κ α) := ⟨empty⟩

/-- The number of entries. -/
def size (map : SortedMap κ α) : Nat := map.entries.length

/-- A map without entries answers `true`. -/
def isEmpty (map : SortedMap κ α) : Bool := map.entries.isEmpty

/-- The keys in order, as they are spelled in the map. -/
def keys (map : SortedMap κ α) : List κ := map.entries.map Prod.fst

/-- The values in the order of their keys. -/
def values (map : SortedMap κ α) : List α := map.entries.map Prod.snd

/-- The entry whose key equals the given one, with the spelling that the map holds. -/
def entry? (map : SortedMap κ α) (key : κ) : Option (κ × α) :=
  map.entries.find? (fun entry => compare key entry.1 == .eq)

/-- The value at a key. -/
def get? (map : SortedMap κ α) (key : κ) : Option α := (map.entry? key).map Prod.snd

/-- A key is present when some spelling of it is. -/
def contains (map : SortedMap κ α) (key : κ) : Bool := (map.entry? key).isSome

/-- The value at a key becomes a function of the value held there. -/
def upsert [Std.TransOrd κ] (map : SortedMap κ α) (key : κ) (change : Option α → α) :
    SortedMap κ α :=
  ⟨upsertEntry key change map.entries, increasing_upsertEntry key change map.increasing⟩

/-- A later value replaces an earlier one, and the earlier spelling of the key stays. -/
def insert [Std.TransOrd κ] (map : SortedMap κ α) (key : κ) (value : α) : SortedMap κ α :=
  map.upsert key (fun _ => value)

/-- Entries inserted one after the other into an empty map. -/
def ofList [Std.TransOrd κ] (entries : List (κ × α)) : SortedMap κ α :=
  entries.foldl (fun map entry => map.insert entry.1 entry.2) empty

/-- Keeping some of the entries keeps their order. -/
theorem increasing_filter {entries : List (κ × α)} (keep : κ × α → Bool)
    (increasing : Increasing entries) : Increasing (entries.filter keep) :=
  List.Pairwise.sublist List.filter_sublist increasing

/-- The entries that pass a test. -/
def filter (map : SortedMap κ α) (keep : κ → α → Bool) : SortedMap κ α :=
  ⟨map.entries.filter (fun entry => keep entry.1 entry.2), increasing_filter _ map.increasing⟩

/-- The map without a key, in whatever spelling it was held. -/
def erase (map : SortedMap κ α) (key : κ) : SortedMap κ α :=
  map.filter (fun other _ => compare key other != .eq)

/-- Changing values, or dropping them, keeps the order of the keys that remain. -/
theorem increasing_filterMap {entries : List (κ × α)} (change : κ → α → Option β)
    (increasing : Increasing entries) :
    Increasing (entries.filterMap fun entry => (change entry.1 entry.2).map (entry.1, ·)) := by
  refine List.Pairwise.filterMap _ ?_ increasing
  intro left right before changedLeft memLeft changedRight memRight
  obtain ⟨_, _, sameLeft⟩ := Option.map_eq_some_iff.1 memLeft
  obtain ⟨_, _, sameRight⟩ := Option.map_eq_some_iff.1 memRight
  rw [← sameLeft, ← sameRight]
  exact before

/-- Each value is changed or dropped; keys keep their spelling. -/
def filterMap (map : SortedMap κ α) (change : κ → α → Option β) : SortedMap κ β :=
  ⟨map.entries.filterMap fun entry => (change entry.1 entry.2).map (entry.1, ·),
    increasing_filterMap change map.increasing⟩

/-- Changing values alone keeps the order of the keys. -/
theorem increasing_map {entries : List (κ × α)} (change : κ → α → β)
    (increasing : Increasing entries) :
    Increasing (entries.map fun entry => (entry.1, change entry.1 entry.2)) :=
  List.Pairwise.map _ (fun _ _ before => before) increasing

/-- Each value is changed; keys keep their spelling. -/
def mapValues (map : SortedMap κ α) (change : κ → α → β) : SortedMap κ β :=
  ⟨map.entries.map fun entry => (entry.1, change entry.1 entry.2),
    increasing_map change map.increasing⟩

/-- The value at a key that is present is changed; an absent key stays absent. -/
def modify (map : SortedMap κ α) (key : κ) (change : α → α) : SortedMap κ α :=
  map.mapValues (fun other value => if compare key other == .eq then change value else value)

/-- Two maps are equal when they hold equal values at equal keys, whatever the spelling. -/
def sameEntries [BEq α] : List (κ × α) → List (κ × α) → Bool
  | [], [] => true
  | (leftKey, leftValue) :: leftRest, (rightKey, rightValue) :: rightRest =>
    compare leftKey rightKey == .eq && leftValue == rightValue && sameEntries leftRest rightRest
  | _, _ => false

instance [BEq α] : BEq (SortedMap κ α) := ⟨fun left right => sameEntries left.entries right.entries⟩

end SortedMap

end RegionGossip
