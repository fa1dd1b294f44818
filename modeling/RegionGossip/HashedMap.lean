import RegionGossip.Ident

/-!
# Maps kept in buckets

A map that knows of its keys only their equality and their hash. The hash of a key tells the bucket
in which the key is kept, and there it is found by equality. An operation that finds a key present
leaves its spelling as it was; the order of the entries depends on the hash and means nothing.
-/

namespace RegionGossip

/-- A finite map, held in a row of buckets. -/
structure HashedMap (κ : Type) (α : Type) where
  hash : κ → Nat
  buckets : List (List (κ × α))
  positive : 0 < buckets.length

namespace HashedMap

variable {κ α : Type}

/-- The map without entries, with one more bucket than the given number. -/
def empty (hash : κ → Nat) (more : Nat) : HashedMap κ α :=
  ⟨hash, List.replicate (more + 1) [], by simp⟩

/-- The number of the bucket in which a key is kept. -/
def place (map : HashedMap κ α) (key : κ) : Nat := map.hash key % map.buckets.length

/-- The bucket in which a key is kept. -/
def bucket (map : HashedMap κ α) (key : κ) : List (κ × α) := map.buckets.getD (map.place key) []

/-- All entries, bucket by bucket. -/
def entries (map : HashedMap κ α) : List (κ × α) := map.buckets.flatten

variable [BEq κ]

/-- A value is put into a bucket; a key that is there keeps its spelling. -/
def putEntry (key : κ) (value : α) : List (κ × α) → List (κ × α)
  | [] => [(key, value)]
  | (other, held) :: rest =>
    if key == other then (other, value) :: rest else (other, held) :: putEntry key value rest

/-- A later value replaces an earlier one, and the earlier spelling of the key stays. -/
def insert (map : HashedMap κ α) (key : κ) (value : α) : HashedMap κ α :=
  { map with
    buckets := map.buckets.modify (map.place key) (putEntry key value)
    positive := by simpa using map.positive }

/-- Entries inserted one after the other into an empty map. -/
def ofList (hash : κ → Nat) (more : Nat) (entries : List (κ × α)) : HashedMap κ α :=
  entries.foldl (fun map entry => map.insert entry.1 entry.2) (empty hash more)

/-- The entry whose key equals the given one, with the spelling that the map holds. -/
def entry? (map : HashedMap κ α) (key : κ) : Option (κ × α) :=
  (map.bucket key).find? fun entry => key == entry.1

end HashedMap

/-- The hash of an identifier, with a given way to make a number of the bytes that it contributes. -/
def Ident.hashBy {kind : IdentKind} (digest : List UInt8 → Nat) (ident : Ident kind) : Nat :=
  digest ident.hashBytes

end RegionGossip
