import Mathlib.Data.List.Basic
import Mathlib.Data.List.Nodup
import RegionGossip.HashedMap

/-!
# Looking up keys in buckets

Where equal keys have equal hashes, a map in buckets answers by its keys alone: an insertion changes
the answer for the inserted key and for no other, the spelling of a key that is there stays, and
the entries of the map are exactly its answers. Without that assumption an equal key could be looked
for in the wrong bucket.
-/

namespace RegionGossip.HashedMap

variable {κ α : Type} [BEq κ]

/-- Equal keys have the same hash. -/
def Agrees (hash : κ → Nat) : Prop := ∀ {left right : κ}, (left == right) = true →
  hash left = hash right

/-- The entry of a bucket whose key equals the given one. -/
def findEntry (bucket : List (κ × α)) (key : κ) : Option (κ × α) :=
  bucket.find? fun entry => key == entry.1

/-- The first entry is found if its key is meant, and the rest is searched otherwise. -/
theorem findEntry_cons (held key : κ) (value : α) (rest : List (κ × α)) :
    findEntry ((held, value) :: rest) key =
      if (key == held) = true then some (held, value) else findEntry rest key := by
  by_cases hkey : (key == held) = true <;> simp [findEntry, hkey]

omit [BEq κ] in
/-- The place of a key is the number of a bucket. -/
theorem getElem?_place (map : HashedMap κ α) (key : κ) :
    map.buckets[map.place key]? = some (map.bucket key) := by
  have hplace : map.place key < map.buckets.length := Nat.mod_lt _ map.positive
  rw [bucket, List.getD_eq_getElem?_getD, List.getElem?_eq_getElem hplace]
  rfl

/-- The empty map answers nothing. -/
theorem entry?_empty (hash : κ → Nat) (more : Nat) (key : κ) :
    HashedMap.entry? (empty hash more : HashedMap κ α) key = none := by
  show findEntry (bucket (empty hash more) key) key = none
  rw [bucket, empty, List.getD_eq_getElem?_getD, List.getElem?_replicate]
  split <;> rfl

/-- An insertion leaves the number of buckets as it is, and so the places of all keys. -/
theorem place_insert (map : HashedMap κ α) (key other : κ) (value : α) :
    (map.insert key value).place other = map.place other := by
  simp [place, insert]

/-- An insertion puts the value into the bucket at the place of the key. -/
theorem getElem?_buckets_insert (map : HashedMap κ α) (key : κ) (value : α) (i : Nat) :
    (map.insert key value).buckets[i]? = (map.buckets[i]?).map fun bucket =>
      if map.place key = i then putEntry key value bucket else bucket := by
  rw [insert, List.getElem?_modify]
  rfl

/-- An insertion changes the bucket of a key if it is that of the inserted one. -/
theorem bucket_insert (map : HashedMap κ α) (key other : κ) (value : α) :
    (map.insert key value).bucket other =
      if map.place key = map.place other then putEntry key value (map.bucket other)
      else map.bucket other := by
  have hbucket := getElem?_place (map.insert key value) other
  rw [place_insert, getElem?_buckets_insert, getElem?_place] at hbucket
  exact (Option.some.inj hbucket).symm

variable [EquivBEq κ]

/-- Only the key that is put into a bucket gets a new entry. It keeps the spelling it had. -/
theorem findEntry_putEntry (key other : κ) (value : α) (bucket : List (κ × α)) :
    findEntry (putEntry key value bucket) other =
      if (other == key) = true then
        some (((findEntry bucket key).map Prod.fst).getD key, value)
      else findEntry bucket other := by
  induction bucket with
  | nil => exact findEntry_cons ..
  | cons head rest ih =>
    obtain ⟨held, old⟩ := head
    rw [putEntry]
    by_cases hheld : (key == held) = true
    · have hother : (other == held) = (other == key) := (BEq.congr_right hheld).symm
      rw [if_pos hheld, findEntry_cons, findEntry_cons, findEntry_cons, hother, if_pos hheld]
      split <;> rfl
    · rw [if_neg hheld, findEntry_cons, findEntry_cons, findEntry_cons, ih, if_neg hheld]
      by_cases hother : (other == key) = true
      · rw [BEq.congr_left hother, if_neg hheld, if_pos hother, if_pos hother]
      · rw [if_neg hother, if_neg hother]

/-- Only the key that is inserted gets a new entry. It keeps the spelling it had. -/
theorem entry?_insert {map : HashedMap κ α} (hagrees : Agrees map.hash) (key other : κ)
    (value : α) :
    HashedMap.entry? (map.insert key value) other =
      if (other == key) = true then
        some (((map.entry? key).map Prod.fst).getD key, value)
      else map.entry? other := by
  show findEntry _ _ = if _ then some (((findEntry _ _).map Prod.fst).getD key, value)
    else findEntry _ _
  rw [bucket_insert]
  by_cases hkey : (other == key) = true
  · have hplace : map.place key = map.place other := by rw [place, place, hagrees hkey]
    rw [if_pos hplace, findEntry_putEntry, if_pos hkey, if_pos hkey, bucket, bucket, hplace]
  · rw [if_neg hkey]
    split
    · rw [findEntry_putEntry, if_neg hkey]
    · rfl

/-! ## The entries of a map -/

/-- No two entries of a bucket have equal keys. -/
def Distinct (bucket : List (κ × α)) : Prop :=
  bucket.Pairwise fun left right => (left.1 == right.1) = false

/-- Every entry stands in the bucket where its key is looked for, and no two entries of a bucket
have equal keys. -/
structure Sound (map : HashedMap κ α) : Prop where
  placed : ∀ i bucket, map.buckets[i]? = some bucket → ∀ entry ∈ bucket, map.place entry.1 = i
  distinct : ∀ bucket ∈ map.buckets, Distinct bucket

omit [EquivBEq κ] in
/-- Every key of a bucket is the one that was put there or an old one. -/
theorem fst_mem_putEntry {key : κ} {value : α} {bucket : List (κ × α)} {entry : κ × α}
    (hmem : entry ∈ putEntry key value bucket) :
    entry.1 = key ∨ ∃ old ∈ bucket, entry.1 = old.1 := by
  induction bucket with
  | nil =>
    obtain rfl := List.mem_singleton.1 hmem
    exact .inl rfl
  | cons head rest ih =>
    obtain ⟨held, old⟩ := head
    rw [putEntry] at hmem
    split at hmem
    · rcases List.mem_cons.1 hmem with rfl | hrest
      · exact .inr ⟨(held, old), List.mem_cons_self, rfl⟩
      · exact .inr ⟨entry, List.mem_cons_of_mem _ hrest, rfl⟩
    · rcases List.mem_cons.1 hmem with rfl | hrest
      · exact .inr ⟨(held, old), List.mem_cons_self, rfl⟩
      · rcases ih hrest with hkey | ⟨found, hfound, hsame⟩
        · exact .inl hkey
        · exact .inr ⟨found, List.mem_cons_of_mem _ hfound, hsame⟩

/-- A bucket keeps its keys apart when a value is put into it. -/
theorem Distinct.putEntry {bucket : List (κ × α)} (hdistinct : Distinct bucket) (key : κ)
    (value : α) : Distinct (putEntry key value bucket) := by
  induction bucket with
  | nil => exact List.pairwise_singleton _ _
  | cons head rest ih =>
    obtain ⟨held, old⟩ := head
    obtain ⟨hhead, hrest⟩ := List.pairwise_cons.1 hdistinct
    rw [HashedMap.putEntry]
    split
    · exact List.pairwise_cons.2 ⟨hhead, hrest⟩
    · rename_i hother
      refine List.pairwise_cons.2 ⟨fun entry hentry => ?_, ih hrest⟩
      rcases fst_mem_putEntry hentry with hkey | ⟨found, hfound, hsame⟩
      · rw [hkey, BEq.comm]
        exact Bool.eq_false_iff.2 hother
      · rw [hsame]
        exact hhead found hfound

omit [EquivBEq κ] in
/-- A map without entries is sound. -/
theorem sound_empty (hash : κ → Nat) (more : Nat) : Sound (empty hash more : HashedMap κ α) := by
  have hbucket : ∀ bucket ∈ (empty hash more : HashedMap κ α).buckets, bucket = [] :=
    fun bucket hmem => List.eq_of_mem_replicate hmem
  constructor
  · intro i bucket hget entry hentry
    rw [hbucket _ (List.mem_of_getElem? hget)] at hentry
    exact absurd hentry List.not_mem_nil
  · intro bucket hmem
    rw [hbucket bucket hmem]
    exact List.Pairwise.nil

/-- An insertion keeps a map sound. -/
theorem Sound.insert {map : HashedMap κ α} (hsound : Sound map) (key : κ) (value : α) :
    Sound (map.insert key value) := by
  constructor
  · intro i bucket hget entry hentry
    rw [getElem?_buckets_insert] at hget
    obtain ⟨old, hold, rfl⟩ := Option.map_eq_some_iff.1 hget
    rw [place_insert]
    split at hentry
    · rename_i hplace
      rcases fst_mem_putEntry hentry with hkey | ⟨found, hfound, hsame⟩
      · rw [hkey, hplace]
      · rw [hsame, hsound.placed i old hold found hfound]
    · exact hsound.placed i old hold entry hentry
  · intro bucket hmem
    obtain ⟨i, hget⟩ := List.getElem?_of_mem hmem
    rw [getElem?_buckets_insert] at hget
    obtain ⟨old, hold, rfl⟩ := Option.map_eq_some_iff.1 hget
    have hdistinct := hsound.distinct old (List.mem_of_getElem? hold)
    split
    · exact hdistinct.putEntry key value
    · exact hdistinct

/-- Insertions one after the other give a sound map. -/
theorem sound_ofList (hash : κ → Nat) (more : Nat) (entries : List (κ × α)) :
    Sound (ofList hash more entries) :=
  List.foldlRecOn entries _ (sound_empty hash more)
    fun _ hsound entry _ => hsound.insert entry.1 entry.2

/-- In a bucket with different keys an entry is found by its own key. -/
theorem findEntry_of_mem {bucket : List (κ × α)} (hdistinct : Distinct bucket) {entry : κ × α}
    (hmem : entry ∈ bucket) : findEntry bucket entry.1 = some entry := by
  induction bucket with
  | nil => exact absurd hmem List.not_mem_nil
  | cons head rest ih =>
    obtain ⟨hhead, hrest⟩ := List.pairwise_cons.1 hdistinct
    rw [findEntry_cons]
    rcases List.mem_cons.1 hmem with rfl | hold
    · rw [if_pos BEq.rfl]
    · have hkeys : (entry.1 == head.1) = false := by rw [BEq.comm]; exact hhead entry hold
      rw [hkeys, if_neg Bool.false_ne_true, ih hrest hold]

/-- The entries of a map are its answers. -/
theorem Sound.mem_entries_iff {map : HashedMap κ α} (hsound : Sound map) {entry : κ × α} :
    entry ∈ map.entries ↔ map.entry? entry.1 = some entry := by
  rw [entries, List.mem_flatten]
  constructor
  · rintro ⟨bucket, hbucket, hmem⟩
    obtain ⟨i, hget⟩ := List.getElem?_of_mem hbucket
    have hplace := getElem?_place map entry.1
    rw [hsound.placed i bucket hget entry hmem, hget] at hplace
    show findEntry (map.bucket entry.1) entry.1 = some entry
    rw [← Option.some.inj hplace]
    exact findEntry_of_mem (hsound.distinct bucket hbucket) hmem
  · intro hfind
    exact ⟨_, List.mem_of_getElem? (getElem?_place map entry.1), List.mem_of_find?_eq_some hfind⟩

/-- No entry of a map stands in it twice. -/
theorem Sound.nodup_entries {map : HashedMap κ α} (hsound : Sound map) : map.entries.Nodup := by
  refine List.nodup_flatten.2 ⟨fun bucket hbucket => ?_, ?_⟩
  · refine (hsound.distinct bucket hbucket).imp fun {left right} hkeys hsame => ?_
    rw [hsame, BEq.rfl] at hkeys
    contradiction
  · rw [List.pairwise_iff_getElem]
    intro i j hi hj hlt entry hleft hright
    have hfirst := hsound.placed i _ (List.getElem?_eq_getElem hi) entry hleft
    have hsecond := hsound.placed j _ (List.getElem?_eq_getElem hj) entry hright
    omega

end RegionGossip.HashedMap
