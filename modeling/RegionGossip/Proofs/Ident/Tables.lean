import Mathlib.Data.List.Induction
import RegionGossip.Proofs.HashedMap.Lookup
import RegionGossip.Proofs.Ident.Folding
import RegionGossip.Proofs.SortedMap.Lookup

/-!
# Tables of identifiers

Every table of a node is keyed by identifiers, some kept in key order and some by hash. Because
equality, order and hash agree, it makes no difference: after any insertions, in whatever spellings,
both kinds of table hold the same entries, each under the spelling that came first and with the
value that came last.
-/

namespace RegionGossip

variable {kind : IdentKind} {α : Type}

namespace Ident

/-- What a row of insertions leaves at a key: the spelling of the first and the value of the last
insertion of that key. -/
def kept (insertions : List (Ident kind × α)) (key : Ident kind) : Option (Ident kind × α) :=
  let same := insertions.filter fun entry => key == entry.1
  same.head?.bind fun first => same.getLast?.map fun last => (first.1, last.2)

/-- One more insertion changes what is left at its own key, except for the spelling. -/
theorem kept_append (insertions : List (Ident kind × α)) (key other : Ident kind) (value : α) :
    kept (insertions ++ [(key, value)]) other =
      if (other == key) = true then
        some (((kept insertions key).map Prod.fst).getD key, value)
      else kept insertions other := by
  by_cases hkey : (other == key) = true
  · have hfilter : (insertions ++ [(key, value)]).filter (fun entry => other == entry.1) =
        insertions.filter (fun entry => key == entry.1) ++ [(key, value)] := by
      simp [List.filter_append, BEq.congr_left hkey]
    rw [if_pos hkey, kept, hfilter, kept]
    cases insertions.filter fun entry => key == entry.1 with
    | nil => rfl
    | cons first rest => simp [List.getLast?_append, List.getLast?_cons]
  · have hfilter : (insertions ++ [(key, value)]).filter (fun entry => other == entry.1) =
        insertions.filter (fun entry => other == entry.1) := by
      simp [List.filter_append, hkey]
    rw [if_neg hkey, kept, hfilter, kept]

/-- Equal identifiers have equal hashes, however the bytes that they contribute are made a number. -/
theorem agrees_hashBy (digest : List UInt8 → Nat) :
    HashedMap.Agrees (hashBy digest : Ident kind → Nat) := by
  intro left right hequal
  rw [hashBy, hashBy, beq_iff_hashBytes.1 hequal]

end Ident

/-- A table kept in key order answers with what the insertions leave. -/
theorem SortedMap.entry?_ofList (insertions : List (Ident kind × α)) (key : Ident kind) :
    SortedMap.entry? (SortedMap.ofList insertions) key = Ident.kept insertions key := by
  induction insertions using List.reverseRecOn generalizing key with
  | nil => rfl
  | append_singleton rows entry ih =>
    obtain ⟨inserted, value⟩ := entry
    have hofList : SortedMap.ofList (rows ++ [(inserted, value)]) =
        (SortedMap.ofList rows).insert inserted value := List.foldl_append ..
    rw [hofList, Ident.kept_append, ← ih, ← ih]
    refine (findEntry_upsertEntry inserted key _ (SortedMap.ofList rows).increasing).trans ?_
    simp only [Ident.compare_eq_iff_beq]
    rfl

namespace HashedMap

variable {digest : List UInt8 → Nat} {more : Nat}

/-- Insertions leave the way in which keys are hashed as it is. -/
theorem hash_ofList (insertions : List (Ident kind × α)) :
    (ofList (Ident.hashBy digest) more insertions).hash = Ident.hashBy digest := by
  have hkeeps (map : HashedMap (Ident kind) α) : (insertions.foldl
      (fun map entry => map.insert entry.1 entry.2) map).hash = map.hash := by
    induction insertions generalizing map with
    | nil => rfl
    | cons entry rest ih => exact ih (map.insert entry.1 entry.2)
  exact hkeeps _

/-- A table kept by hash answers with what the insertions leave. -/
theorem entry?_ofList (insertions : List (Ident kind × α)) (key : Ident kind) :
    HashedMap.entry? (ofList (Ident.hashBy digest) more insertions) key = Ident.kept insertions key := by
  induction insertions using List.reverseRecOn generalizing key with
  | nil => exact entry?_empty _ _ _
  | append_singleton rows entry ih =>
    obtain ⟨inserted, value⟩ := entry
    have hofList : ofList (Ident.hashBy digest) more (rows ++ [(inserted, value)]) =
        (ofList (Ident.hashBy digest) more rows).insert inserted value := List.foldl_append ..
    have hagrees : Agrees (ofList (Ident.hashBy digest) more rows).hash := by
      rw [hash_ofList]
      exact Ident.agrees_hashBy digest
    rw [hofList, entry?_insert hagrees, Ident.kept_append, ← ih, ← ih]

/-- A table kept by hash has the entries of the table kept in key order. -/
theorem perm_entries_ofList (insertions : List (Ident kind × α)) :
    (ofList (Ident.hashBy digest) more insertions).entries.Perm
      (SortedMap.ofList insertions).entries := by
  have hsound := sound_ofList (Ident.hashBy digest) more insertions
  refine (List.perm_ext_iff_of_nodup hsound.nodup_entries
    (SortedMap.ofList insertions).nodup_entries).2 fun entry => ?_
  rw [hsound.mem_entries_iff, entry?_ofList, ← SortedMap.entry?_ofList]
  exact ⟨List.mem_of_find?_eq_some, SortedMap.entry?_of_mem _⟩

end HashedMap

namespace Ident

/-- Equality, order and hash of identifiers agree and look at all but the case of ASCII letters; the
order is total, and no identifier contributes a proper beginning of what another one does to a hash.
So a table kept in key order and one kept by hash, whatever becomes of the bytes and however many
buckets there are, hold the same entries after the same insertions. -/
theorem equality_order_hash_agree :
    (∀ left right : Ident kind,
      ((left == right) = true ↔ compare left right = .eq) ∧
      ((left == right) = true ↔ left.hashBytes = right.hashBytes) ∧
      ((left == right) = true ↔
        left.name.toList.map Char.toLower = right.name.toList.map Char.toLower)) ∧
    (∀ one : Ident kind, compare one one = .eq) ∧
    (∀ one two : Ident kind, (compare one two).isLE = true → (compare two one).isLE = true →
      (one == two) = true) ∧
    (∀ one two three : Ident kind, (compare one two).isLE = true →
      (compare two three).isLE = true → (compare one three).isLE = true) ∧
    (∀ one two : Ident kind, (compare one two).isLE = true ∨ (compare two one).isLE = true) ∧
    (∀ one two : Ident kind, one.hashBytes <+: two.hashBytes → one.hashBytes = two.hashBytes) ∧
    ∀ (digest : List UInt8 → Nat) (more : Nat) (insertions : List (Ident kind × α)),
      let tree := SortedMap.ofList insertions
      let table := HashedMap.ofList (hashBy digest) more insertions
      table.entries.Perm tree.entries ∧
      (∀ key, tree.entry? key = kept insertions key ∧ table.entry? key = kept insertions key) ∧
      tree.keys.Pairwise fun before after => compare before after = .lt := by
  refine ⟨fun left right => ⟨compare_eq_iff_beq.symm, beq_iff_hashBytes, beq_iff_toLower⟩,
    fun _ => Std.ReflCmp.compare_self, ?antisymm, fun _ _ _ => Std.TransCmp.isLE_trans, ?total,
    fun _ _ => hashBytes_eq_of_isPrefix, ?tables⟩
  case antisymm =>
    intro one two hle hge
    exact compare_eq_iff_beq.1 (Std.OrientedCmp.isLE_antisymm hle hge)
  case total =>
    intro one two
    cases horder : compare one two with
    | lt => exact .inl rfl
    | eq => exact .inl rfl
    | gt => exact .inr (by rw [Std.OrientedCmp.lt_of_gt horder]; rfl)
  case tables =>
    intro digest more insertions
    exact ⟨HashedMap.perm_entries_ofList insertions,
      fun key => ⟨SortedMap.entry?_ofList insertions key, HashedMap.entry?_ofList insertions key⟩,
      List.pairwise_map.2 (SortedMap.ofList insertions).increasing⟩

/-- Two spellings of one name compare as at most each other and are equal, and a table kept by hash
in eight buckets holds the name under the first spelling with the last value. -/
theorem twoSpellings_oneEntry :
    let rows : List (NodeId × Nat) := [(⟨"ServerA"⟩, 1), (⟨"b"⟩, 2), (⟨"servera"⟩, 3)]
    (compare (⟨"ServerA"⟩ : NodeId) ⟨"servera"⟩).isLE = true ∧
    (compare (⟨"servera"⟩ : NodeId) ⟨"ServerA"⟩).isLE = true ∧
    ((⟨"ServerA"⟩ : NodeId) == ⟨"servera"⟩) = true ∧
    (HashedMap.ofList (hashBy List.length) 7 rows).entries.Perm
      [(⟨"b"⟩, 2), (⟨"ServerA"⟩, 3)] := by
  intro rows
  have hle : (compare (⟨"ServerA"⟩ : NodeId) ⟨"servera"⟩).isLE = true := by decide +kernel
  have hge : (compare (⟨"servera"⟩ : NodeId) ⟨"ServerA"⟩).isLE = true := by decide +kernel
  have htree : (SortedMap.ofList rows).entries = [(⟨"b"⟩, 2), (⟨"ServerA"⟩, 3)] := rfl
  have hlaws := @equality_order_hash_agree .node Nat
  exact ⟨hle, hge, hlaws.2.2.1 _ _ hle hge,
    htree ▸ (hlaws.2.2.2.2.2.2 List.length 7 rows).1⟩

end Ident

end RegionGossip
