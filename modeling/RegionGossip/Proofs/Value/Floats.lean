import RegionGossip.Proofs.Value.NormalForm

/-!
# Floats inside values

A change of floats applies to a value wherever it holds one, and leaves everything else as it is:
the other values, the keys of maps and the lengths of lists. So a changed value is in normal form
where the value was, and two changes give the same value exactly when they agree on its floats.
-/

namespace RegionGossip

namespace Value

mutual

/-- The floats inside a value. -/
def floats : Value → List Binary64
  | .float number => [number]
  | .list items => floatsOfItems items
  | .map entries => floatsOfEntries entries
  | _ => []

/-- The floats inside the items of a list. -/
def floatsOfItems : List Value → List Binary64
  | [] => []
  | item :: rest => item.floats ++ floatsOfItems rest

/-- The floats inside the values of some entries. -/
def floatsOfEntries : List (String × Value) → List Binary64
  | [] => []
  | (_, value) :: rest => value.floats ++ floatsOfEntries rest

end

mutual

/-- A value with its floats changed. -/
def mapFloats (change : Binary64 → Binary64) : Value → Value
  | .null => .null
  | .bool flag => .bool flag
  | .int number => .int number
  | .float number => .float (change number)
  | .text content => .text content
  | .list items => .list (mapFloatsOfItems change items)
  | .map entries => .map (mapFloatsOfEntries change entries)

/-- The items of a list with their floats changed. -/
def mapFloatsOfItems (change : Binary64 → Binary64) : List Value → List Value
  | [] => []
  | item :: rest => item.mapFloats change :: mapFloatsOfItems change rest

/-- Entries with the floats in their values changed. -/
def mapFloatsOfEntries (change : Binary64 → Binary64) :
    List (String × Value) → List (String × Value)
  | [] => []
  | (key, value) :: rest => (key, value.mapFloats change) :: mapFloatsOfEntries change rest

end

variable {first second : Binary64 → Binary64}

/-- The items are changed one by one. -/
theorem mapFloatsOfItems_eq_map (change : Binary64 → Binary64) (items : List Value) :
    mapFloatsOfItems change items = items.map (mapFloats change) := by
  induction items with
  | nil => rfl
  | cons item rest ih => rw [mapFloatsOfItems, ih, List.map_cons]

/-- The entries are changed one by one, and keep their keys. -/
theorem mapFloatsOfEntries_eq_map (change : Binary64 → Binary64)
    (entries : List (String × Value)) :
    mapFloatsOfEntries change entries =
      entries.map fun entry => (entry.1, entry.2.mapFloats change) := by
  induction entries with
  | nil => rfl
  | cons entry rest ih => rw [mapFloatsOfEntries, ih, List.map_cons]

/-- The keys stay in their order. -/
theorem increasing_mapFloatsOfEntries (change : Binary64 → Binary64)
    {entries : List (String × Value)} (hincreasing : Increasing entries) :
    Increasing (mapFloatsOfEntries change entries) := by
  rw [mapFloatsOfEntries_eq_map]
  exact SortedMap.increasing_map (fun _ value => value.mapFloats change) hincreasing

mutual

/-- The floats of a changed value are the changed floats. -/
theorem floats_mapFloats (change : Binary64 → Binary64) :
    ∀ value : Value, (value.mapFloats change).floats = value.floats.map change
  | .null => rfl
  | .bool _ => rfl
  | .int _ => rfl
  | .float _ => rfl
  | .text _ => rfl
  | .list items => floatsOfItems_mapFloatsOfItems change items
  | .map entries => floatsOfEntries_mapFloatsOfEntries change entries

/-- The floats of changed items are the changed floats. -/
theorem floatsOfItems_mapFloatsOfItems (change : Binary64 → Binary64) : ∀ items : List Value,
    floatsOfItems (mapFloatsOfItems change items) = (floatsOfItems items).map change
  | [] => rfl
  | item :: rest => by
    rw [mapFloatsOfItems, floatsOfItems, floatsOfItems, List.map_append,
      floats_mapFloats change item, floatsOfItems_mapFloatsOfItems change rest]

/-- The floats of changed entries are the changed floats. -/
theorem floatsOfEntries_mapFloatsOfEntries (change : Binary64 → Binary64) :
    ∀ entries : List (String × Value),
      floatsOfEntries (mapFloatsOfEntries change entries) = (floatsOfEntries entries).map change
  | [] => rfl
  | (_, value) :: rest => by
    rw [mapFloatsOfEntries, floatsOfEntries, floatsOfEntries, List.map_append,
      floats_mapFloats change value, floatsOfEntries_mapFloatsOfEntries change rest]

end

mutual

/-- One change after another is the change by both. -/
theorem mapFloats_mapFloats (first second : Binary64 → Binary64) : ∀ value : Value,
    (value.mapFloats first).mapFloats second = value.mapFloats (second ∘ first)
  | .null => rfl
  | .bool _ => rfl
  | .int _ => rfl
  | .float _ => rfl
  | .text _ => rfl
  | .list items => congrArg Value.list (mapFloatsOfItems_mapFloatsOfItems first second items)
  | .map entries =>
    congrArg Value.map (mapFloatsOfEntries_mapFloatsOfEntries first second entries)

/-- One change of items after another is the change by both. -/
theorem mapFloatsOfItems_mapFloatsOfItems (first second : Binary64 → Binary64) :
    ∀ items : List Value, mapFloatsOfItems second (mapFloatsOfItems first items) =
      mapFloatsOfItems (second ∘ first) items
  | [] => rfl
  | item :: rest => by
    rw [mapFloatsOfItems, mapFloatsOfItems, mapFloatsOfItems, mapFloats_mapFloats first second item,
      mapFloatsOfItems_mapFloatsOfItems first second rest]

/-- One change of entries after another is the change by both. -/
theorem mapFloatsOfEntries_mapFloatsOfEntries (first second : Binary64 → Binary64) :
    ∀ entries : List (String × Value),
      mapFloatsOfEntries second (mapFloatsOfEntries first entries) =
        mapFloatsOfEntries (second ∘ first) entries
  | [] => rfl
  | (_, value) :: rest => by
    rw [mapFloatsOfEntries, mapFloatsOfEntries, mapFloatsOfEntries,
      mapFloats_mapFloats first second value,
      mapFloatsOfEntries_mapFloatsOfEntries first second rest]

end

mutual

/-- Changes that agree on the floats of a value give the same value. -/
theorem mapFloats_congr : ∀ value : Value, (∀ x ∈ value.floats, first x = second x) →
    value.mapFloats first = value.mapFloats second
  | .null, _ => rfl
  | .bool _, _ => rfl
  | .int _, _ => rfl
  | .float x, hagree => congrArg Value.float (hagree x List.mem_cons_self)
  | .text _, _ => rfl
  | .list items, hagree => congrArg Value.list (mapFloatsOfItems_congr items hagree)
  | .map entries, hagree => congrArg Value.map (mapFloatsOfEntries_congr entries hagree)

/-- Changes that agree on the floats of items give the same items. -/
theorem mapFloatsOfItems_congr : ∀ items : List Value,
    (∀ x ∈ floatsOfItems items, first x = second x) →
    mapFloatsOfItems first items = mapFloatsOfItems second items
  | [], _ => rfl
  | item :: rest, hagree => by
    rw [floatsOfItems, List.forall_mem_append] at hagree
    rw [mapFloatsOfItems, mapFloatsOfItems, mapFloats_congr item hagree.1,
      mapFloatsOfItems_congr rest hagree.2]

/-- Changes that agree on the floats of entries give the same entries. -/
theorem mapFloatsOfEntries_congr : ∀ entries : List (String × Value),
    (∀ x ∈ floatsOfEntries entries, first x = second x) →
    mapFloatsOfEntries first entries = mapFloatsOfEntries second entries
  | [], _ => rfl
  | (_, value) :: rest, hagree => by
    rw [floatsOfEntries, List.forall_mem_append] at hagree
    rw [mapFloatsOfEntries, mapFloatsOfEntries, mapFloats_congr value hagree.1,
      mapFloatsOfEntries_congr rest hagree.2]

end

mutual

/-- Without a change a value stays as it is. -/
theorem mapFloats_id : ∀ value : Value, value.mapFloats id = value
  | .null => rfl
  | .bool _ => rfl
  | .int _ => rfl
  | .float _ => rfl
  | .text _ => rfl
  | .list items => congrArg Value.list (mapFloatsOfItems_id items)
  | .map entries => congrArg Value.map (mapFloatsOfEntries_id entries)

/-- Without a change items stay as they are. -/
theorem mapFloatsOfItems_id : ∀ items : List Value, mapFloatsOfItems id items = items
  | [] => rfl
  | item :: rest => by rw [mapFloatsOfItems, mapFloats_id item, mapFloatsOfItems_id rest]

/-- Without a change entries stay as they are. -/
theorem mapFloatsOfEntries_id :
    ∀ entries : List (String × Value), mapFloatsOfEntries id entries = entries
  | [] => rfl
  | (_, value) :: rest => by rw [mapFloatsOfEntries, mapFloats_id value, mapFloatsOfEntries_id rest]

end

mutual

/-- A changed value is in normal form where the value is. -/
theorem normal_mapFloats (change : Binary64 → Binary64) :
    ∀ {value : Value}, Normal value → Normal (value.mapFloats change)
  | .null, _ => .null
  | .bool flag, _ => .bool flag
  | .int number, _ => .int number
  | .float number, _ => .float (change number)
  | .text content, _ => .text content
  | .list _, .list hitems => .list (normalItems_mapFloatsOfItems change hitems)
  | .map _, .map hincreasing hentries =>
    .map (increasing_mapFloatsOfEntries change hincreasing)
      (normalEntries_mapFloatsOfEntries change hentries)

/-- Changed items are in normal form where the items are. -/
theorem normalItems_mapFloatsOfItems (change : Binary64 → Binary64) :
    ∀ {items : List Value}, NormalItems items → NormalItems (mapFloatsOfItems change items)
  | [], _ => .nil
  | _ :: _, .cons hitem hrest =>
    .cons (normal_mapFloats change hitem) (normalItems_mapFloatsOfItems change hrest)

/-- Changed entries have values in normal form where the entries have. -/
theorem normalEntries_mapFloatsOfEntries (change : Binary64 → Binary64) :
    ∀ {entries : List (String × Value)}, NormalEntries entries →
      NormalEntries (mapFloatsOfEntries change entries)
  | [], _ => .nil
  | (_, _) :: _, .cons hvalue hrest =>
    .cons (normal_mapFloats change hvalue) (normalEntries_mapFloatsOfEntries change hrest)

end

end Value

namespace Payload

/-- The floats inside a payload. -/
def floats (payload : Payload) : List Binary64 := Value.floatsOfEntries payload.entries

/-- A payload with its floats changed. -/
def mapFloats (change : Binary64 → Binary64) (payload : Payload) : Payload where
  values := ⟨Value.mapFloatsOfEntries change payload.entries,
    Value.increasing_mapFloatsOfEntries change payload.values.increasing⟩
  normal := Value.normalEntries_iff.1
    (Value.normalEntries_mapFloatsOfEntries change (Value.normalEntries_iff.2 payload.normal))

variable {first second : Binary64 → Binary64} {payload : Payload}

/-- The entries of a changed payload are the changed entries. -/
theorem entries_mapFloats (change : Binary64 → Binary64) (payload : Payload) :
    (payload.mapFloats change).entries = Value.mapFloatsOfEntries change payload.entries :=
  rfl

/-- The floats of a changed payload are the changed floats. -/
theorem floats_mapFloats (change : Binary64 → Binary64) (payload : Payload) :
    (payload.mapFloats change).floats = payload.floats.map change :=
  Value.floatsOfEntries_mapFloatsOfEntries change payload.entries

/-- One change after another is the change by both. -/
theorem mapFloats_mapFloats (first second : Binary64 → Binary64) (payload : Payload) :
    (payload.mapFloats first).mapFloats second = payload.mapFloats (second ∘ first) :=
  ext_entries (Value.mapFloatsOfEntries_mapFloatsOfEntries first second payload.entries)

/-- Two changes give the same payload exactly when they agree on its floats. -/
theorem mapFloats_eq_mapFloats_iff :
    payload.mapFloats first = payload.mapFloats second ↔
      ∀ x ∈ payload.floats, first x = second x := by
  constructor
  · intro hsame
    have hfloats := congrArg Payload.floats hsame
    rw [floats_mapFloats, floats_mapFloats] at hfloats
    exact List.map_inj_left.1 hfloats
  · exact fun hagree => ext_entries (Value.mapFloatsOfEntries_congr payload.entries hagree)

/-- Without a change a payload stays as it is. -/
theorem mapFloats_id (payload : Payload) : payload.mapFloats id = payload :=
  ext_entries (Value.mapFloatsOfEntries_id payload.entries)

/-- A change leaves a payload as it is exactly when it leaves its floats. -/
theorem mapFloats_eq_self_iff {change : Binary64 → Binary64} :
    payload.mapFloats change = payload ↔ ∀ x ∈ payload.floats, change x = x := by
  have hagree := @mapFloats_eq_mapFloats_iff change id payload
  rwa [mapFloats_id] at hagree

end Payload

end RegionGossip
