import RegionGossip.SortedMap
import RegionGossip.Binary64.Round

/-!
# Gossip values and payloads

The values that nodes exchange form a closed set of shapes, so that a format without type
descriptions can carry them. A value read from outside may list the keys of a map in any order and
more than once; `Value.normalize` puts every map inside it into key order, a later entry replacing
an earlier one. A payload holds only values in that normal form.
-/

namespace RegionGossip

/-- A value in the gossip state. The entries of a map stand in the order they were given. -/
inductive Value
  | null
  | bool (flag : Bool)
  | int (number : Int64)
  | float (number : Binary64)
  | text (content : String)
  | list (items : List Value)
  | map (entries : List (String × Value))
  deriving Inhabited

namespace Value

/-- Only an integer reads as an integer. -/
def asInt? : Value → Option Int64
  | .int number => some number
  | _ => none

/-- Floats and integers read as floats; an integer goes to the nearest one. -/
def asFloat? : Value → Option Binary64
  | .float number => some number
  | .int number => some (Binary64.ofInt number.toInt)
  | _ => none

mutual

/-- Every map inside a value is put into key order; of equal keys the last value stays. -/
def normalize : Value → Value
  | .null => .null
  | .bool flag => .bool flag
  | .int number => .int number
  | .float number => .float number
  | .text content => .text content
  | .list items => .list (normalizeItems items)
  | .map entries => .map (SortedMap.ofList (normalizeEntries entries)).entries

/-- Each item of a list is put into normal form. -/
def normalizeItems : List Value → List Value
  | [] => []
  | item :: rest => item.normalize :: normalizeItems rest

/-- The value of each entry is put into normal form; the entries stay where they are. -/
def normalizeEntries : List (String × Value) → List (String × Value)
  | [] => []
  | (key, value) :: rest => (key, value.normalize) :: normalizeEntries rest

end

mutual

/-- A value in normal form: the keys of every map in it strictly increase. -/
inductive Normal : Value → Prop
  | null : Normal .null
  | bool (flag : Bool) : Normal (.bool flag)
  | int (number : Int64) : Normal (.int number)
  | float (number : Binary64) : Normal (.float number)
  | text (content : String) : Normal (.text content)
  | list {items : List Value} : NormalItems items → Normal (.list items)
  | map {entries : List (String × Value)} :
      Increasing entries → NormalEntries entries → Normal (.map entries)

/-- A list of values in normal form. -/
inductive NormalItems : List Value → Prop
  | nil : NormalItems []
  | cons {item : Value} {rest : List Value} :
      Normal item → NormalItems rest → NormalItems (item :: rest)

/-- Entries whose values are in normal form. -/
inductive NormalEntries : List (String × Value) → Prop
  | nil : NormalEntries []
  | cons {key : String} {value : Value} {rest : List (String × Value)} :
      Normal value → NormalEntries rest → NormalEntries ((key, value) :: rest)

end

/-- Entries have normal values exactly when each of them has one. -/
theorem normalEntries_iff {entries : List (String × Value)} :
    NormalEntries entries ↔ ∀ entry ∈ entries, Normal entry.2 := by
  induction entries with
  | nil => simp [NormalEntries.nil]
  | cons entry rest ih =>
    constructor
    · intro normal
      cases normal with
      | cons value others =>
        intro found mem
        rcases List.mem_cons.1 mem with same | old
        · rw [same]; exact value
        · exact ih.1 others found old
    · intro normal
      exact .cons (normal entry List.mem_cons_self)
        (ih.2 fun found mem => normal found (List.mem_cons_of_mem _ mem))

end Value

/-- Every value of an updated list is the new value or an old one. -/
theorem snd_mem_upsertEntry {key : String} {new : Value} {entries : List (String × Value)}
    {entry : String × Value} (mem : entry ∈ SortedMap.upsertEntry key (fun _ => new) entries) :
    entry.2 = new ∨ ∃ old ∈ entries, entry.2 = old.2 := by
  induction entries with
  | nil => simp_all [SortedMap.upsertEntry]
  | cons head rest ih =>
    obtain ⟨other, held⟩ := head
    rw [SortedMap.upsertEntry] at mem
    split at mem
    · rcases List.mem_cons.1 mem with same | old
      · exact .inl (by rw [same])
      · exact .inr ⟨entry, old, rfl⟩
    · rcases List.mem_cons.1 mem with same | old
      · exact .inl (by rw [same])
      · exact .inr ⟨entry, List.mem_cons_of_mem _ old, rfl⟩
    · rcases List.mem_cons.1 mem with same | old
      · exact .inr ⟨(other, held), List.mem_cons_self, by rw [same]⟩
      · rcases ih old with isNew | ⟨found, foundMem, sameValue⟩
        · exact .inl isNew
        · exact .inr ⟨found, List.mem_cons_of_mem _ foundMem, sameValue⟩

/-- Sorting entries brings in no new value. -/
theorem normal_ofList {entries : List (String × Value)}
    (normal : ∀ entry ∈ entries, Value.Normal entry.2) :
    ∀ entry ∈ (SortedMap.ofList entries).entries, Value.Normal entry.2 := by
  suffices general : ∀ (entries : List (String × Value)) (map : SortedMap String Value),
      (∀ entry ∈ map.entries, Value.Normal entry.2) →
      (∀ entry ∈ entries, Value.Normal entry.2) →
      ∀ entry ∈ (entries.foldl (fun map entry => map.insert entry.1 entry.2) map).entries,
        Value.Normal entry.2 from
    general entries SortedMap.empty (fun _ mem => absurd mem List.not_mem_nil) normal
  intro entries
  induction entries with
  | nil => intro map held _; exact held
  | cons head rest ih =>
    intro map held given
    refine ih _ (fun entry mem => ?_) (fun entry mem => given entry (List.mem_cons_of_mem _ mem))
    rcases snd_mem_upsertEntry mem with isNew | ⟨old, oldMem, same⟩
    · rw [isNew]; exact given head List.mem_cons_self
    · rw [same]; exact held old oldMem

namespace Value

mutual

/-- A normalized value is in normal form. -/
theorem normal_normalize : ∀ value : Value, Normal value.normalize
  | .null => .null
  | .bool flag => .bool flag
  | .int number => .int number
  | .float number => .float number
  | .text content => .text content
  | .list items => .list (normal_normalizeItems items)
  | .map entries =>
    .map (SortedMap.ofList (normalizeEntries entries)).increasing
      (normalEntries_iff.2 (normal_ofList (normalEntries_iff.1 (normal_normalizeEntries entries))))

/-- Normalized items are in normal form. -/
theorem normal_normalizeItems : ∀ items : List Value, NormalItems (normalizeItems items)
  | [] => .nil
  | item :: rest => .cons (normal_normalize item) (normal_normalizeItems rest)

/-- Normalized entries have values in normal form. -/
theorem normal_normalizeEntries :
    ∀ entries : List (String × Value), NormalEntries (normalizeEntries entries)
  | [] => .nil
  | (_, value) :: rest => .cons (normal_normalize value) (normal_normalizeEntries rest)

end

end Value

/-- The state that a node shares with its neighbours each round: values under program positions, in
the order of the positions. -/
structure Payload where
  values : SortedMap String Value
  normal : ∀ entry ∈ values.entries, Value.Normal entry.2

namespace Payload

/-- The payload without entries. -/
def empty : Payload := ⟨SortedMap.empty, fun _ mem => absurd mem List.not_mem_nil⟩

instance : Inhabited Payload := ⟨empty⟩

/-- The payload of entries in any order; of entries at one position the last one stays. -/
def ofEntries (entries : List (String × Value)) : Payload :=
  ⟨SortedMap.ofList (Value.normalizeEntries entries),
    normal_ofList (Value.normalEntries_iff.1 (Value.normal_normalizeEntries entries))⟩

/-- The entries in the order of their positions. -/
def entries (payload : Payload) : List (String × Value) := payload.values.entries

/-- The value at a position. -/
def get? (payload : Payload) (position : String) : Option Value := payload.values.get? position

end Payload

end RegionGossip
