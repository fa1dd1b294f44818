import RegionGossip.SortedMap

/-!
# Looking up keys in a sorted map

A map answers by the first entry whose key compares as equal, and because its keys strictly
increase that entry is the only one. The operations are described by what they do to the answers,
so later modules never look at the order of the entries. A row of entries that already increases is
its own map.
-/

namespace RegionGossip.SortedMap

open Std

variable {κ : Type} {α : Type} [Ord κ]

/-- The entry of a row whose key equals the given one. -/
def findEntry (entries : List (κ × α)) (key : κ) : Option (κ × α) :=
  entries.find? fun entry => compare key entry.1 == .eq

/-- The value that a row of entries holds at a key. -/
def lookupEntry (entries : List (κ × α)) (key : κ) : Option α :=
  (entries.find? fun entry => compare key entry.1 == .eq).map Prod.snd

/-- The answer of a row is the value of the entry that is found. -/
theorem lookupEntry_eq_map (entries : List (κ × α)) (key : κ) :
    lookupEntry entries key = (findEntry entries key).map Prod.snd := rfl

/-- The first entry is found if its key is meant, and the rest is searched otherwise. -/
theorem findEntry_cons (held key : κ) (value : α) (rest : List (κ × α)) :
    findEntry ((held, value) :: rest) key =
      if compare key held = .eq then some (held, value) else findEntry rest key := by
  by_cases hkey : compare key held = .eq <;> simp [findEntry, hkey]

/-- The first entry answers if its key is meant, and the rest answers otherwise. -/
theorem lookupEntry_cons (held key : κ) (value : α) (rest : List (κ × α)) :
    lookupEntry ((held, value) :: rest) key =
      if compare key held = .eq then some value else lookupEntry rest key := by
  rw [lookupEntry_eq_map, findEntry_cons]
  split <;> rfl

/-- A key below all keys of a row is not found. -/
theorem findEntry_of_below {entries : List (κ × α)} {key : κ}
    (hbelow : ∀ entry ∈ entries, compare key entry.1 = .lt) : findEntry entries key = none := by
  rw [findEntry, List.find?_eq_none]
  intro entry hentry
  simp [hbelow entry hentry]

/-- The empty map holds nothing. -/
@[simp] theorem get?_empty (key : κ) : (∅ : SortedMap κ α).get? key = none := rfl

/-- A key is present when it has an answer. -/
theorem contains_eq_isSome (map : SortedMap κ α) (key : κ) :
    map.contains key = (map.get? key).isSome := by
  simp [contains, get?]

/-- Every answer comes from an entry, whose key is equal to the one that was asked for. -/
theorem exists_mem_of_get? {map : SortedMap κ α} {key : κ} {value : α}
    (hget : map.get? key = some value) :
    ∃ held, (held, value) ∈ map.entries ∧ compare key held = .eq := by
  obtain ⟨⟨held, found⟩, hfind, rfl⟩ := Option.map_eq_some_iff.1 hget
  exact ⟨held, List.mem_of_find?_eq_some hfind, by simpa using List.find?_some hfind⟩

variable [TransOrd κ]

/-- Equal keys find the same entry. -/
theorem findEntry_congr {entries : List (κ × α)} {left right : κ}
    (hkeys : compare left right = .eq) : findEntry entries left = findEntry entries right := by
  simp only [findEntry, TransCmp.congr_left hkeys]

/-- Equal keys get the same answer. -/
theorem lookupEntry_congr {entries : List (κ × α)} {left right : κ}
    (hkeys : compare left right = .eq) : lookupEntry entries left = lookupEntry entries right :=
  congrArg (Option.map Prod.snd) (findEntry_congr hkeys)

/-- A key below the first one of an increasing row is not found. -/
theorem findEntry_of_lt_head {head : κ × α} {rest : List (κ × α)} {key : κ}
    (hincreasing : Increasing (head :: rest)) (hlt : compare key head.1 = .lt) :
    findEntry (head :: rest) key = none := by
  refine findEntry_of_below fun entry hentry => ?_
  rcases List.mem_cons.1 hentry with rfl | hrest
  · exact hlt
  · exact TransCmp.lt_trans hlt ((List.pairwise_cons.1 hincreasing).1 entry hrest)

/-- A key below the first one of an increasing row is not held. -/
theorem lookupEntry_of_lt_head {head : κ × α} {rest : List (κ × α)} {key : κ}
    (hincreasing : Increasing (head :: rest)) (hlt : compare key head.1 = .lt) :
    lookupEntry (head :: rest) key = none :=
  congrArg (Option.map Prod.snd) (findEntry_of_lt_head hincreasing hlt)

/-- A key that equals the first one of an increasing row is not held by the rest. -/
theorem lookupEntry_tail_of_eq {head : κ × α} {rest : List (κ × α)} {key : κ}
    (hincreasing : Increasing (head :: rest)) (hkey : compare key head.1 = .eq) :
    lookupEntry rest key = none := by
  refine congrArg (Option.map Prod.snd) (findEntry_of_below fun entry hentry => ?_)
  rw [TransCmp.congr_left hkey]
  exact (List.pairwise_cons.1 hincreasing).1 entry hentry

/-- Only the key that is updated gets a new entry. It keeps the spelling it had. -/
theorem findEntry_upsertEntry (key other : κ) (change : Option α → α) {entries : List (κ × α)}
    (hincreasing : Increasing entries) :
    findEntry (upsertEntry key change entries) other =
      if compare other key = .eq then
        some (((findEntry entries key).map Prod.fst).getD key, change (lookupEntry entries key))
      else findEntry entries other := by
  rw [lookupEntry_eq_map]
  induction entries with
  | nil => exact findEntry_cons ..
  | cons head rest ih =>
    obtain ⟨held, value⟩ := head
    rw [upsertEntry]
    split
    · rename_i hlt
      rw [findEntry_cons, findEntry_of_lt_head hincreasing hlt]
      rfl
    · rename_i heq
      rw [findEntry_cons, findEntry_cons, findEntry_cons, if_pos heq, TransCmp.congr_right heq]
      split <;> rfl
    · rename_i hgt
      have hkey : compare key held ≠ .eq := by simp [hgt]
      rw [findEntry_cons, findEntry_cons, findEntry_cons, if_neg hkey,
        ih (List.pairwise_cons.1 hincreasing).2]
      by_cases hother : compare other key = .eq
      · have hheld : compare other held ≠ .eq := by rwa [TransCmp.congr_left hother]
        rw [if_neg hheld, if_pos hother, if_pos hother]
      · rw [if_neg hother, if_neg hother]

/-- Only the key that is updated gets a new answer. -/
theorem lookupEntry_upsertEntry (key other : κ) (change : Option α → α) {entries : List (κ × α)}
    (hincreasing : Increasing entries) :
    lookupEntry (upsertEntry key change entries) other =
      if compare other key = .eq then some (change (lookupEntry entries key))
      else lookupEntry entries other := by
  rw [lookupEntry_eq_map, findEntry_upsertEntry key other change hincreasing]
  split <;> rfl

/-- Dropping a key takes its answer away and no other one. -/
theorem lookupEntry_filter_ne (key other : κ) (entries : List (κ × α)) :
    lookupEntry (entries.filter fun entry => compare key entry.1 != .eq) other =
      if compare other key = .eq then none else lookupEntry entries other := by
  induction entries with
  | nil => simp [lookupEntry]
  | cons head rest ih =>
    obtain ⟨held, value⟩ := head
    by_cases hheld : compare key held = .eq
    · rw [List.filter_cons_of_neg (by simp [hheld]), ih, lookupEntry_cons, TransCmp.congr_right hheld]
      split <;> rfl
    · rw [List.filter_cons_of_pos (by simpa using hheld), lookupEntry_cons, lookupEntry_cons, ih]
      by_cases hother : compare other key = .eq
      · have hother' : compare other held ≠ .eq := by rwa [TransCmp.congr_left hother]
        simp [hother, hother']
      · simp [hother]

omit [TransOrd κ] in
/-- Maps with the same row of entries are the same. -/
theorem eq_of_entries_eq {left right : SortedMap κ α} (hentries : left.entries = right.entries) :
    left = right := by
  cases left
  cases right
  congr

section Answers

variable (map : SortedMap κ α) (key other : κ)

/-- No entry stands in a map twice. -/
theorem nodup_entries : map.entries.Nodup := by
  apply map.increasing.imp
  rintro one two hless rfl
  simp at hless

/-- The inserted value answers for its key. -/
theorem get?_insert (value : α) :
    (map.insert key value).get? other =
      if compare other key = .eq then some value else map.get? other :=
  lookupEntry_upsertEntry key other _ map.increasing

/-- An erased key has no answer any more. -/
theorem get?_erase :
    (map.erase key).get? other = if compare other key = .eq then none else map.get? other :=
  lookupEntry_filter_ne key other map.entries

/-- Equal keys get the same answer. -/
theorem get?_congr {left right : κ} (hkeys : compare left right = .eq) :
    map.get? left = map.get? right := lookupEntry_congr hkeys

/-- Entries with equal keys are the same entry. -/
theorem eq_of_mem_of_compare_eq {left right : κ × α} (hleft : left ∈ map.entries)
    (hright : right ∈ map.entries) (hkeys : compare left.1 right.1 = .eq) : left = right := by
  obtain ⟨entries, hincreasing⟩ := map
  induction entries with
  | nil => exact absurd hleft List.not_mem_nil
  | cons head rest ih =>
    obtain ⟨hhead, hrest⟩ := List.pairwise_cons.1 hincreasing
    rcases List.mem_cons.1 hleft with rfl | hleftRest
    · rcases List.mem_cons.1 hright with rfl | hrightRest
      · rfl
      · exact absurd (hhead right hrightRest) (by simp [hkeys])
    · rcases List.mem_cons.1 hright with rfl | hrightRest
      · exact absurd (hhead left hleftRest) (by simp [OrientedCmp.eq_symm hkeys])
      · exact ih hrest hleftRest hrightRest

/-- Every entry is found by its own key, as no other entry has an equal one. -/
theorem entry?_of_mem {entry : κ × α} (hmem : entry ∈ map.entries) :
    map.entry? entry.1 = some entry := by
  cases hfind : map.entry? entry.1 with
  | none =>
    have hself := List.find?_eq_none.1 hfind entry hmem
    simp at hself
  | some found =>
    have hkeys : compare entry.1 found.1 = .eq := by simpa using List.find?_some hfind
    rw [map.eq_of_mem_of_compare_eq hmem (List.mem_of_find?_eq_some hfind) hkeys]

/-- Every entry is the answer for its own key. -/
theorem get?_of_mem {key : κ} {value : α} (hmem : (key, value) ∈ map.entries) :
    map.get? key = some value :=
  congrArg (Option.map Prod.snd) (map.entry?_of_mem hmem)

/-- The values of a map are its answers. -/
theorem mem_values_iff {value : α} : value ∈ map.values ↔ ∃ key, map.get? key = some value := by
  rw [values, List.mem_map]
  constructor
  · rintro ⟨⟨key, found⟩, hmem, rfl⟩
    exact ⟨key, map.get?_of_mem hmem⟩
  · rintro ⟨key, hget⟩
    obtain ⟨held, hmem, -⟩ := exists_mem_of_get? hget
    exact ⟨(held, value), hmem, rfl⟩

end Answers

/-- The entry of another key stays as it is, with its spelling, when a value is inserted. -/
theorem entry?_insert_of_ne {map : SortedMap κ α} {key other : κ}
    (hother : compare other key ≠ .eq) (value : α) :
    SortedMap.entry? (map.insert key value) other = map.entry? other :=
  (findEntry_upsertEntry key other _ map.increasing).trans (if_neg hother)

/-- The entry of another key stays as it is, with its spelling, when a key is erased. -/
theorem entry?_erase_of_ne {map : SortedMap κ α} {key other : κ}
    (hother : compare other key ≠ .eq) :
    SortedMap.entry? (map.erase key) other = map.entry? other := by
  show (map.entries.filter fun entry => compare key entry.1 != .eq).find? _ = map.entries.find? _
  rw [List.find?_filter]
  congr 1
  funext entry
  by_cases hentry : compare other entry.1 = .eq
  · have hkey : compare key entry.1 ≠ .eq := by
      rwa [← TransCmp.congr_right hentry, ne_eq, OrientedCmp.eq_comm]
    simp [hentry, hkey]
  · simp [hentry]

/-- A key above all others is put at the end. -/
theorem upsertEntry_of_above {key : κ} {change : Option α → α} {entries : List (κ × α)}
    (habove : ∀ entry ∈ entries, compare entry.1 key = .lt) :
    upsertEntry key change entries = entries ++ [(key, change none)] := by
  induction entries with
  | nil => rfl
  | cons head rest ih =>
    have hgt : compare key head.1 = .gt := OrientedCmp.gt_of_lt (habove head List.mem_cons_self)
    rw [upsertEntry, hgt, ih fun entry hentry => habove entry (List.mem_cons_of_mem _ hentry)]
    rfl

/-- Entries that stand behind those of a map are added to it as they are. -/
theorem foldl_insert_of_increasing (entries : List (κ × α)) (map : SortedMap κ α)
    (hincreasing : Increasing (map.entries ++ entries)) :
    (entries.foldl (fun map entry => map.insert entry.1 entry.2) map).entries =
      map.entries ++ entries := by
  induction entries generalizing map with
  | nil => simp
  | cons head rest ih =>
    have habove : ∀ entry ∈ map.entries, compare entry.1 head.1 = .lt := fun entry hentry =>
      (List.pairwise_append.1 hincreasing).2.2 entry hentry head List.mem_cons_self
    have hinsert : (map.insert head.1 head.2).entries = map.entries ++ [head] :=
      upsertEntry_of_above habove
    have hassoc : (map.insert head.1 head.2).entries ++ rest = map.entries ++ head :: rest := by
      rw [hinsert, List.append_assoc, List.singleton_append]
    rw [List.foldl_cons, ih _ (hassoc ▸ hincreasing), hassoc]

/-- Entries in increasing order are the entries of their map. -/
theorem entries_ofList {entries : List (κ × α)} (hincreasing : Increasing entries) :
    (ofList entries).entries = entries :=
  foldl_insert_of_increasing entries empty hincreasing

end RegionGossip.SortedMap
