import RegionGossip.Proofs.Binary64.Numeral
import RegionGossip.Proofs.Json.Documents
import RegionGossip.Proofs.Value.Floats
import RegionGossip.Wire.Verbose

/-!
# What the verbose form gives back

The verbose form of a value is a document that can always be written, but not always be read: a
float that is no number is written as `null`, and a reader opens only so many arrays and objects
inside one another. A value comes back exactly when neither stands in the way, with each of its
floats as its numeral is read. The proof follows the syntax of values; the levels that a value takes
are counted by `Value.nesting`.
-/

namespace RegionGossip

namespace Value

mutual

/-- How many arrays and objects the verbose form of a value nests: the shape without content is a
string, every other one is an object, and a list or a map is a further level inside it. -/
def nesting : Value → Nat
  | .null => 0
  | .list items => 2 + nestingOfItems items
  | .map entries => 2 + nestingOfEntries entries
  | _ => 1

/-- The nesting of the deepest item. -/
def nestingOfItems : List Value → Nat
  | [] => 0
  | item :: rest => max item.nesting (nestingOfItems rest)

/-- The nesting of the deepest entry. -/
def nestingOfEntries : List (String × Value) → Nat
  | [] => 0
  | (_, value) :: rest => max value.nesting (nestingOfEntries rest)

end

mutual

/-- A change of floats does not change the nesting. -/
theorem nesting_mapFloats (change : Binary64 → Binary64) :
    ∀ value : Value, (value.mapFloats change).nesting = value.nesting
  | .null => rfl
  | .bool _ => rfl
  | .int _ => rfl
  | .float _ => rfl
  | .text _ => rfl
  | .list items => congrArg (2 + ·) (nestingOfItems_mapFloats change items)
  | .map entries => congrArg (2 + ·) (nestingOfEntries_mapFloats change entries)

/-- A change of floats does not change the nesting of items. -/
theorem nestingOfItems_mapFloats (change : Binary64 → Binary64) : ∀ items : List Value,
    nestingOfItems (mapFloatsOfItems change items) = nestingOfItems items
  | [] => rfl
  | item :: rest => by
    rw [mapFloatsOfItems, nestingOfItems, nestingOfItems, nesting_mapFloats change item,
      nestingOfItems_mapFloats change rest]

/-- A change of floats does not change the nesting of entries. -/
theorem nestingOfEntries_mapFloats (change : Binary64 → Binary64) :
    ∀ entries : List (String × Value),
      nestingOfEntries (mapFloatsOfEntries change entries) = nestingOfEntries entries
  | [] => rfl
  | (_, value) :: rest => by
    rw [mapFloatsOfEntries, nestingOfEntries, nestingOfEntries, nesting_mapFloats change value,
      nestingOfEntries_mapFloats change rest]

end

end Value

/-- The nesting of the deepest value of a payload. -/
def Payload.nesting (payload : Payload) : Nat := Value.nestingOfEntries payload.entries

/-- A change of floats does not change the nesting of a payload. -/
theorem Payload.nesting_mapFloats (change : Binary64 → Binary64) (payload : Payload) :
    (payload.mapFloats change).nesting = payload.nesting :=
  Value.nestingOfEntries_mapFloats change payload.entries

namespace Json

mutual

/-- How many arrays and objects are nested in a document. -/
def nesting : Json → Nat
  | .array items => nestingOfItems items + 1
  | .object fields => nestingOfFields fields + 1
  | _ => 0

/-- The nesting of the deepest item. -/
def nestingOfItems : List Json → Nat
  | [] => 0
  | item :: rest => max item.nesting (nestingOfItems rest)

/-- The nesting of the deepest field. -/
def nestingOfFields : List (Option String × Json) → Nat
  | [] => 0
  | (_, value) :: rest => max value.nesting (nestingOfFields rest)

end

/-- The numeral of a signed word stands for that integer. -/
theorem readNumber_ofInt {n : Int} (hlow : -2 ^ 63 ≤ n) (hhigh : n < 2 ^ 63) :
    readNumber (Numeral.ofInt n) = some (if n < 0 then .negative n else .natural n.natAbs) := by
  have hwhole : (Numeral.ofInt n).isWhole = true := rfl
  have hvalue : Decimal.value (Numeral.ofInt n).whole = n.natAbs := Decimal.value_digits _
  have hsign : (Numeral.ofInt n).negative = decide (n < 0) := rfl
  have hsize : n.natAbs ≤ maxWord := by
    simp only [maxWord]
    omega
  simp only [readNumber, hwhole, hvalue, hsign, decide_eq_true hsize, Bool.and_self, if_true]
  by_cases hnegative : n < 0
  · have habs : -(n.natAbs : Int) = n := by omega
    rw [decide_eq_true hnegative, Bool.not_true, if_neg (by simp), if_neg (by omega),
      if_pos (by omega), if_pos hnegative, habs]
  · rw [decide_eq_false hnegative, Bool.not_false, if_pos rfl, if_neg hnegative]

/-- A written integer is read back. -/
theorem readInt64_ofInt (number : Int64) :
    readInt64 (Numeral.ofInt number.toInt) = some number := by
  have hlow := number.le_toInt
  have hhigh := number.toInt_lt
  rw [readInt64, readNumber_ofInt hlow hhigh]
  by_cases hnegative : number.toInt < 0
  · simp [hnegative]
  · have habs : (number.toInt.natAbs : Int) = number.toInt := by omega
    have hword : Int64.ofNat number.toInt.natAbs = number := by
      rw [← Int64.ofInt_eq_ofNat, habs, Int64.ofInt_toInt]
    rw [if_neg hnegative]
    show (if number.toInt.natAbs < 2 ^ 63 then _ else none) = _
    rw [if_pos (by omega), hword]

end Json

namespace Wire.Verbose

open Value (floatsOfItems floatsOfEntries mapFloatsOfItems mapFloatsOfEntries nestingOfItems
  nestingOfEntries)

mutual

/-- The document of a value can be written. -/
theorem regular_document : ∀ value : Value, (document value).Regular
  | .null => rfl
  | .bool _ => ⟨rfl, trivial, trivial⟩
  | .int number => ⟨rfl, Numeral.regular_ofInt number.toInt, trivial⟩
  | .float number => by
    refine ⟨rfl, ?_, trivial⟩
    rw [floatDocument]
    split
    · rename_i hfinite
      exact Binary64.Layout.regular_numeral _ hfinite
    · trivial
  | .text _ => ⟨rfl, rfl, trivial⟩
  | .list items => ⟨rfl, regularItems_itemDocuments items, trivial⟩
  | .map entries => ⟨rfl, regularFields_fieldDocuments entries, trivial⟩

/-- The documents of items can be written. -/
theorem regularItems_itemDocuments : ∀ items : List Value,
    Json.RegularItems (itemDocuments items)
  | [] => trivial
  | item :: rest => ⟨regular_document item, regularItems_itemDocuments rest⟩

/-- The fields of entries can be written. -/
theorem regularFields_fieldDocuments : ∀ entries : List (String × Value),
    Json.RegularFields (fieldDocuments entries)
  | [] => trivial
  | (_, value) :: rest => ⟨rfl, regular_document value, regularFields_fieldDocuments rest⟩

end

mutual

/-- The document of a value nests as many arrays and objects as are counted. -/
theorem nesting_document : ∀ value : Value, (document value).nesting = value.nesting
  | .null => rfl
  | .bool _ => rfl
  | .int _ => rfl
  | .float number => by
    rw [document, floatDocument]
    split <;> rfl
  | .text _ => rfl
  | .list items => by
    have hitems := nesting_itemDocuments items
    simp only [document, tagged, Json.field, Json.nesting, Json.nestingOfFields, Value.nesting,
      hitems]
    omega
  | .map entries => by
    have hentries := nesting_fieldDocuments entries
    simp only [document, tagged, Json.field, Json.nesting, Json.nestingOfFields, Value.nesting,
      hentries]
    omega

/-- The documents of items nest as deep as the items. -/
theorem nesting_itemDocuments : ∀ items : List Value,
    Json.nestingOfItems (itemDocuments items) = nestingOfItems items
  | [] => rfl
  | item :: rest => by
    rw [itemDocuments, Json.nestingOfItems, nestingOfItems, nesting_document item,
      nesting_itemDocuments rest]

/-- The fields of entries nest as deep as the entries. -/
theorem nesting_fieldDocuments : ∀ entries : List (String × Value),
    Json.nestingOfFields (fieldDocuments entries) = nestingOfEntries entries
  | [] => rfl
  | (key, value) :: rest => by
    rw [fieldDocuments, Json.field, Json.nestingOfFields, nestingOfEntries,
      nesting_document value, nesting_fieldDocuments rest]

end

/-- Whether floats and a nesting stand in the way of no reader with some levels left. -/
def Readable (depth : Nat) (floats : List Binary64) (nesting : Nat) : Prop :=
  (∀ x ∈ floats, x.isFinite = true) ∧ nesting ≤ depth

instance (depth : Nat) (floats : List Binary64) (nesting : Nat) :
    Decidable (Readable depth floats nesting) :=
  inferInstanceAs (Decidable (_ ∧ _))

/-- Two parts beside one another can be read where each of them can. -/
theorem readable_append {depth : Nat} {front back : List Binary64} {first second : Nat} :
    Readable depth (front ++ back) (max first second) ↔
      Readable depth front first ∧ Readable depth back second := by
  simp only [Readable, List.mem_append, Nat.max_le]
  constructor
  · rintro ⟨hfinite, hfirst, hsecond⟩
    exact ⟨⟨fun x hx => hfinite x (.inl hx), hfirst⟩, ⟨fun x hx => hfinite x (.inr hx), hsecond⟩⟩
  · rintro ⟨⟨hfront, hfirst⟩, ⟨hback, hsecond⟩⟩
    exact ⟨fun x hx => hx.elim (hfront x) (hback x), hfirst, hsecond⟩

/-- An object with an array or an object in it takes two levels. -/
theorem readable_two_add {depth nesting : Nat} {floats : List Binary64} :
    Readable (depth + 2) floats (2 + nesting) ↔ Readable depth floats nesting :=
  and_congr_right fun _ => by omega

/-- What nests deeper than the levels that are left is not read. -/
theorem not_readable {depth nesting : Nat} {floats : List Binary64} (hdeep : depth < nesting) :
    ¬ Readable depth floats nesting :=
  fun hreadable => Nat.not_le_of_lt hdeep hreadable.2

/-- Every float in a list that is finite is read from its own numeral as it is changed. -/
def ReadAs (change : Binary64 → Binary64) (floats : List Binary64) : Prop :=
  ∀ x ∈ floats, x.isFinite = true →
    Json.readFloat (Binary64.Layout.wire.numeral x) = some (change x)

/-- The floats of the front and of the back are read as changed when all of them are. -/
theorem readAs_append {change : Binary64 → Binary64} {front back : List Binary64} :
    ReadAs change (front ++ back) ↔ ReadAs change front ∧ ReadAs change back := by
  simp only [ReadAs, List.mem_append]
  constructor
  · exact fun h => ⟨fun x hx => h x (.inl hx), fun x hx => h x (.inr hx)⟩
  · rintro ⟨hfront, hback⟩ x (hx | hx)
    · exact hfront x hx
    · exact hback x hx

/-- The content under the name of a shape is behind one level. -/
theorem readValue_zero_tagged (shape : String) (content : Json) :
    readValue 0 (tagged shape content) = none := by
  simp [tagged, Json.field, readValue]

/-- An entry is read back where its value is. -/
theorem readEntry_field (reader : Json → Option Value) (key : String) (content : Json) :
    readEntry reader (Json.field key content) = (reader content).map (key, ·) := by
  cases hvalue : reader content <;> simp [readEntry, Json.field, hvalue]

variable {change : Binary64 → Binary64}

/-- A float is read when it is finite. -/
theorem readValue_float {x : Binary64} (hfloats : ReadAs change [x]) (depth : Nat) :
    readValue (depth + 1) (document (.float x)) =
      if x.isFinite = true then some (.float (change x)) else none := by
  rw [document, floatDocument]
  by_cases hfinite : x.isFinite = true
  · rw [if_pos hfinite, if_pos hfinite]
    simp [tagged, Json.field, readValue, hfloats x List.mem_cons_self hfinite]
  · rw [if_neg hfinite, if_neg hfinite]
    simp [tagged, Json.field, readValue]

mutual

/-- A value is read exactly when its floats are finite and it nests within the levels. -/
theorem readValue_document : ∀ (value : Value) (depth : Nat), ReadAs change value.floats →
    readValue depth (document value) =
      if Readable depth value.floats value.nesting then some (value.mapFloats change) else none
  | .null, depth, _ => by
    cases depth <;>
      simp [document, Json.str, readValue, Readable, Value.floats, Value.nesting, Value.mapFloats]
  | .bool _, 0, _ => readValue_zero_tagged _ _
  | .bool flag, depth + 1, _ => by
    simp [document, tagged, Json.field, readValue, Readable, Value.floats, Value.nesting,
      Value.mapFloats]
  | .int _, 0, _ => readValue_zero_tagged _ _
  | .int number, depth + 1, _ => by
    simp [document, tagged, Json.field, intDocument, readValue, Json.readInt64_ofInt, Readable,
      Value.floats, Value.nesting, Value.mapFloats]
  | .float _, 0, _ => by
    simp [document, readValue_zero_tagged, Readable, Value.nesting]
  | .float x, depth + 1, hfloats => by
    rw [readValue_float hfloats]
    simp [Readable, Value.floats, Value.nesting, Value.mapFloats]
  | .text _, 0, _ => readValue_zero_tagged _ _
  | .text content, depth + 1, _ => by
    simp [document, tagged, Json.field, Json.str, readValue, Readable, Value.floats, Value.nesting,
      Value.mapFloats]
  | .list _, 0, _ => by
    simp [document, readValue_zero_tagged, Readable, Value.nesting]
  | .list _, 1, _ => by
    rw [Value.nesting, if_neg (not_readable (by omega))]
    simp [document, tagged, Json.field, readValue]
  | .list items, depth + 2, hfloats => by
    have hitems := readItems_itemDocuments items depth hfloats
    simp only [Value.floats, Value.nesting, Value.mapFloats, readable_two_add]
    by_cases hreadable : Readable depth (floatsOfItems items) (nestingOfItems items) <;>
      simp [document, tagged, Json.field, readValue, hitems, hreadable]
  | .map _, 0, _ => by
    simp [document, readValue_zero_tagged, Readable, Value.nesting]
  | .map _, 1, _ => by
    rw [Value.nesting, if_neg (not_readable (by omega))]
    simp [document, tagged, Json.field, readValue]
  | .map entries, depth + 2, hfloats => by
    have hentries := readEntries_fieldDocuments entries depth hfloats
    simp only [Value.floats, Value.nesting, Value.mapFloats, readable_two_add]
    by_cases hreadable : Readable depth (floatsOfEntries entries) (nestingOfEntries entries) <;>
      simp [document, tagged, Json.field, readValue, hentries, hreadable]

/-- Items are read exactly when each of them is. -/
theorem readItems_itemDocuments : ∀ (items : List Value) (depth : Nat),
    ReadAs change (floatsOfItems items) →
    (itemDocuments items).mapM (readValue depth) =
      if Readable depth (floatsOfItems items) (nestingOfItems items) then
        some (mapFloatsOfItems change items) else none
  | [], depth, _ => by
    simp [itemDocuments, Readable, floatsOfItems, nestingOfItems, mapFloatsOfItems]
  | item :: rest, depth, hfloats => by
    obtain ⟨hitem, hrest⟩ := readAs_append.1 hfloats
    rw [itemDocuments, List.mapM_cons, readValue_document item depth hitem,
      readItems_itemDocuments rest depth hrest, floatsOfItems, nestingOfItems, mapFloatsOfItems]
    simp only [readable_append]
    by_cases hfirst : Readable depth item.floats item.nesting <;>
      by_cases hothers : Readable depth (floatsOfItems rest) (nestingOfItems rest) <;>
      simp [hfirst, hothers]

/-- Entries are read exactly when the value of each of them is. -/
theorem readEntries_fieldDocuments : ∀ (entries : List (String × Value)) (depth : Nat),
    ReadAs change (floatsOfEntries entries) →
    (fieldDocuments entries).mapM (readEntry (readValue depth)) =
      if Readable depth (floatsOfEntries entries) (nestingOfEntries entries) then
        some (mapFloatsOfEntries change entries) else none
  | [], depth, _ => by
    simp [fieldDocuments, Readable, floatsOfEntries, nestingOfEntries, mapFloatsOfEntries]
  | (key, value) :: rest, depth, hfloats => by
    obtain ⟨hvalue, hrest⟩ := readAs_append.1 hfloats
    rw [fieldDocuments, List.mapM_cons, readEntry_field, readValue_document value depth hvalue,
      readEntries_fieldDocuments rest depth hrest, floatsOfEntries, nestingOfEntries,
      mapFloatsOfEntries]
    simp only [readable_append]
    by_cases hfirst : Readable depth value.floats value.nesting <;>
      by_cases hothers : Readable depth (floatsOfEntries rest) (nestingOfEntries rest) <;>
      simp [hfirst, hothers]

end

/-- A payload is read exactly when its floats are finite and it nests within the levels. -/
theorem readPayload_payloadDocument {payload : Payload} (hfloats : ReadAs change payload.floats)
    (depth : Nat) :
    readPayload (depth + 1) (payloadDocument payload) =
      if Readable depth payload.floats payload.nesting then some (payload.mapFloats change)
      else none := by
  have hentries := readEntries_fieldDocuments payload.entries depth hfloats
  show ((fieldDocuments payload.entries).mapM (readEntry (readValue depth))).map
    Payload.ofEntries = _
  rw [hentries, ← Payload.floats, ← Payload.nesting, ← Payload.entries_mapFloats]
  by_cases hreadable : Readable depth payload.floats payload.nesting
  · simp [hreadable, Payload.ofEntries_entries]
  · simp [hreadable]

end Wire.Verbose

end RegionGossip
