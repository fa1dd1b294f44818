import Mathlib.Data.List.Basic
import RegionGossip.Proofs.SortedMap.Lookup

/-!
# What an update does to the answers of a sorted map

Changing the value at a key changes the answer for that key alone, and its spelling stays. A map made
of entries with different keys answers with exactly those entries.
-/

namespace RegionGossip.SortedMap

open Std

variable {κ : Type} {α : Type} [Ord κ] [TransOrd κ]

/-- The updated key answers with its changed value. -/
theorem get?_upsert (map : SortedMap κ α) (key other : κ) (change : Option α → α) :
    (map.upsert key change).get? other =
      if compare other key = .eq then some (change (map.get? key)) else map.get? other :=
  lookupEntry_upsertEntry key other change map.increasing

/-- The spelling in which a map holds a key. -/
def spelling? (map : SortedMap κ α) (key : κ) : Option κ := (map.entry? key).map Prod.fst

/-- A key that is updated keeps its spelling, and a new key has the one it is given in. -/
theorem spelling?_upsert (map : SortedMap κ α) (key other : κ) (change : Option α → α) :
    (map.upsert key change).spelling? other =
      (map.spelling? other).or (if compare other key = .eq then some key else none) := by
  show (findEntry (upsertEntry key change map.entries) other).map Prod.fst =
    ((findEntry map.entries other).map Prod.fst).or _
  rw [findEntry_upsertEntry key other change map.increasing]
  split
  · rename_i hkey
    rw [findEntry_congr hkey]
    cases findEntry map.entries key <;> rfl
  · exact Option.or_none.symm

/-- Changing the value at a key of a row changes the answer for that key alone. -/
theorem lookupEntry_map_modify (entries : List (κ × α)) (key other : κ) (change : α → α) :
    lookupEntry (entries.map fun entry =>
        (entry.1, if compare key entry.1 == .eq then change entry.2 else entry.2)) other =
      if compare other key = .eq then (lookupEntry entries other).map change
      else lookupEntry entries other := by
  induction entries with
  | nil => simp [lookupEntry]
  | cons head rest ih =>
    obtain ⟨held, value⟩ := head
    rw [List.map_cons, lookupEntry_cons, lookupEntry_cons, ih]
    by_cases hheld : compare other held = .eq
    · have hkeys : compare key held = .eq ↔ compare other key = .eq := by
        rw [← TransCmp.congr_right hheld]
        exact OrientedCmp.eq_comm
      simp only [if_pos hheld, beq_iff_eq, hkeys, Option.map_some]
      exact apply_ite some _ _ _
    · rw [if_neg hheld, if_neg hheld]

/-- A key that is held answers with its changed value, and no other answer changes. -/
theorem get?_modify (map : SortedMap κ α) (key other : κ) (change : α → α) :
    (map.modify key change).get? other =
      if compare other key = .eq then (map.get? other).map change else map.get? other :=
  lookupEntry_map_modify map.entries key other change

/-- A map whose values are changed or dropped answers with the changed value of the old answer, if
the change does not look at the spelling of keys. -/
theorem get?_filterMap_of_congr {β : Type} (map : SortedMap κ α) {change : κ → α → Option β}
    (hchange : ∀ {left right : κ}, compare left right = .eq → change left = change right)
    (key : κ) : (map.filterMap change).get? key = (map.get? key).bind (change key) := by
  refine Option.ext fun changed => ?_
  rw [Option.bind_eq_some_iff]
  constructor
  · intro hget
    obtain ⟨held, hmem, hkey⟩ := exists_mem_of_get? hget
    obtain ⟨⟨other, value⟩, hentry, hentryChange⟩ := List.mem_filterMap.1 hmem
    obtain ⟨_, hchanged, hpair⟩ := Option.map_eq_some_iff.1 hentryChange
    obtain ⟨rfl, rfl⟩ := Prod.mk.inj hpair
    rw [hchange hkey]
    exact ⟨value, (map.get?_congr hkey).trans (map.get?_of_mem hentry), hchanged⟩
  · rintro ⟨value, hget, hchanged⟩
    obtain ⟨held, hmem, hkey⟩ := exists_mem_of_get? hget
    rw [hchange hkey] at hchanged
    rw [get?_congr _ hkey]
    exact get?_of_mem _ (List.mem_filterMap.2 ⟨(held, value), hmem, by simp [hchanged]⟩)

/-- A map whose values are changed or dropped answers with the changed value of the old answer. -/
theorem get?_filterMap {β : Type} (map : SortedMap κ α) (change : α → Option β) (key : κ) :
    (map.filterMap fun _ value => change value).get? key = (map.get? key).bind change :=
  map.get?_filterMap_of_congr (fun _ => rfl) key

omit [TransOrd κ] in
/-- A map whose values are changed answers with the changed value of the old answer. -/
theorem get?_mapValues {β : Type} (map : SortedMap κ α) (change : α → β) (key : κ) :
    (map.mapValues fun _ value => change value).get? key = (map.get? key).map change := by
  rw [get?, entry?, mapValues, List.find?_map, Option.map_map, get?, entry?, Option.map_map]
  rfl

omit [TransOrd κ] in
/-- Tests that agree on the entries of a map keep the same of them. -/
theorem filter_congr (map : SortedMap κ α) {keep other : κ → α → Bool}
    (hsame : ∀ entry ∈ map.entries, keep entry.1 entry.2 = other entry.1 entry.2) :
    map.filter keep = map.filter other :=
  eq_of_entries_eq (List.filter_congr hsame)

omit [TransOrd κ] in
/-- One test after the other is both tests at once. -/
theorem filter_filter (map : SortedMap κ α) (keep other : κ → α → Bool) :
    (map.filter keep).filter other = map.filter fun key value => other key value && keep key value :=
  eq_of_entries_eq List.filter_filter

omit [TransOrd κ] in
/-- A map of which no value is dropped keeps its keys. -/
theorem keys_filterMap {β : Type} (map : SortedMap κ α) {change : κ → α → Option β}
    (hkept : ∀ entry ∈ map.entries, (change entry.1 entry.2).isSome = true) :
    (map.filterMap change).keys = map.keys := by
  rw [keys, filterMap, List.map_filterMap, keys, List.filterMap_eq_map_iff_forall_eq_some]
  intro entry hentry
  obtain ⟨changed, hchanged⟩ := Option.isSome_iff_exists.1 (hkept entry hentry)
  rw [hchanged]
  rfl

/-- Entries of which no two have the same key. -/
def Distinct (entries : List (κ × α)) : Prop :=
  entries.Pairwise fun left right => compare left.1 right.1 ≠ .eq

/-- Among entries with different keys each one is found by its own key. -/
theorem lookupEntry_of_mem {entries : List (κ × α)} (hdistinct : Distinct entries) {key : κ}
    {value : α} (hmem : (key, value) ∈ entries) : lookupEntry entries key = some value := by
  induction entries with
  | nil => exact absurd hmem List.not_mem_nil
  | cons head rest ih =>
    obtain ⟨held, first⟩ := head
    obtain ⟨hhead, hrest⟩ := List.pairwise_cons.1 hdistinct
    rw [lookupEntry_cons]
    rcases List.mem_cons.1 hmem with hsame | hold
    · obtain ⟨rfl, rfl⟩ := Prod.mk.inj hsame
      rw [if_pos ReflCmp.compare_self]
    · have hkeys : compare key held ≠ .eq := by
        intro hsame
        exact hhead _ hold (OrientedCmp.eq_symm hsame)
      rw [if_neg hkeys, ih hrest hold]

/-- A key is held by the entries that are added to a map, or else by the map. -/
theorem get?_foldl_insert {entries : List (κ × α)} (hdistinct : Distinct entries)
    (map : SortedMap κ α) (key : κ) :
    (entries.foldl (fun map entry => map.insert entry.1 entry.2) map).get? key =
      (lookupEntry entries key).or (map.get? key) := by
  induction entries generalizing map with
  | nil => rfl
  | cons head rest ih =>
    obtain ⟨held, value⟩ := head
    obtain ⟨hhead, hrest⟩ := List.pairwise_cons.1 hdistinct
    rw [List.foldl_cons, ih hrest, get?_insert, lookupEntry_cons]
    by_cases hkey : compare key held = .eq
    · have hnone : lookupEntry rest key = none := by
        rw [lookupEntry_congr hkey, lookupEntry, Option.map_eq_none_iff, List.find?_eq_none]
        intro entry hentry
        simpa using hhead entry hentry
      rw [if_pos hkey, if_pos hkey, hnone]
      rfl
    · rw [if_neg hkey, if_neg hkey]

/-- The values of a map made of entries with different keys are the values of these entries. -/
theorem mem_values_ofList {entries : List (κ × α)} (hdistinct : Distinct entries) {value : α} :
    value ∈ (ofList entries).values ↔ ∃ key, (key, value) ∈ entries := by
  have hget (key : κ) : (ofList entries).get? key = lookupEntry entries key := by
    rw [ofList, get?_foldl_insert hdistinct]
    exact Option.or_none
  rw [mem_values_iff]
  constructor
  · rintro ⟨key, hvalue⟩
    rw [hget] at hvalue
    obtain ⟨⟨held, _⟩, hfind, rfl⟩ := Option.map_eq_some_iff.1 hvalue
    exact ⟨held, List.mem_of_find?_eq_some hfind⟩
  · rintro ⟨key, hmem⟩
    exact ⟨key, (hget key).trans (lookupEntry_of_mem hdistinct hmem)⟩

end RegionGossip.SortedMap
