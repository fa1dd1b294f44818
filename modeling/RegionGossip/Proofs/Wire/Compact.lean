import RegionGossip.Proofs.Value.Floats
import RegionGossip.Proofs.Wire.Word
import RegionGossip.Wire.Compact

/-!
# The compact form is read back

Reading takes a written value off the front of any bytes and leaves what follows it. Lengths and
counts are words of eight bytes, so this holds of values whose texts, lists and maps have fewer than
`2 ^ 64` parts, as everything in an addressable memory has. The proof follows the syntax of values;
the fuel of the reader is measured by the bytes that are written, of which a value has at least
four.
-/

namespace RegionGossip

/-- How many parts a word of eight bytes can count. -/
def wordRange : Nat := 2 ^ 64

namespace Value

/-- The number of UTF-8 bytes of a text fits a word. -/
def countsText (content : String) : Bool := (utf8 content).length < wordRange

mutual

/-- Every text, list and map inside a value has a number of parts that fits a word. -/
def counts : Value → Bool
  | .text content => countsText content
  | .list items => items.length < wordRange && countsItems items
  | .map entries => entries.length < wordRange && countsEntries entries
  | _ => true

/-- Every item of a list has parts that fit. -/
def countsItems : List Value → Bool
  | [] => true
  | item :: rest => item.counts && countsItems rest

/-- Every key and every value of some entries has parts that fit. -/
def countsEntries : List (String × Value) → Bool
  | [] => true
  | (key, value) :: rest => countsText key && value.counts && countsEntries rest

end

mutual

/-- A change of floats does not change how many parts there are. -/
theorem counts_mapFloats (change : Binary64 → Binary64) :
    ∀ value : Value, (value.mapFloats change).counts = value.counts
  | .null => rfl
  | .bool _ => rfl
  | .int _ => rfl
  | .float _ => rfl
  | .text _ => rfl
  | .list items => by
    rw [mapFloats, counts, counts, countsItems_mapFloats change items, mapFloatsOfItems_eq_map,
      List.length_map]
  | .map entries => by
    rw [mapFloats, counts, counts, countsEntries_mapFloats change entries,
      mapFloatsOfEntries_eq_map, List.length_map]

/-- A change of floats does not change how many parts items have. -/
theorem countsItems_mapFloats (change : Binary64 → Binary64) : ∀ items : List Value,
    countsItems (mapFloatsOfItems change items) = countsItems items
  | [] => rfl
  | item :: rest => by
    rw [mapFloatsOfItems, countsItems, countsItems, counts_mapFloats change item,
      countsItems_mapFloats change rest]

/-- A change of floats does not change how many parts entries have. -/
theorem countsEntries_mapFloats (change : Binary64 → Binary64) :
    ∀ entries : List (String × Value),
      countsEntries (mapFloatsOfEntries change entries) = countsEntries entries
  | [] => rfl
  | (_, value) :: rest => by
    rw [mapFloatsOfEntries, countsEntries, countsEntries, counts_mapFloats change value,
      countsEntries_mapFloats change rest]

end

end Value

/-- Everything in a payload has a number of parts that fits a word. -/
def Payload.counts (payload : Payload) : Bool :=
  payload.entries.length < wordRange && Value.countsEntries payload.entries

/-- A change of floats does not change how many parts a payload has. -/
theorem Payload.counts_mapFloats (change : Binary64 → Binary64) (payload : Payload) :
    (payload.mapFloats change).counts = payload.counts := by
  rw [counts, counts, entries_mapFloats, Value.countsEntries_mapFloats,
    Value.mapFloatsOfEntries_eq_map, List.length_map]

namespace Wire.Compact

open Value (countsText countsItems countsEntries)

/-- A word of eight bytes is read back. -/
theorem readWord_count {n : Nat} (hfits : n < wordRange) (rest : List UInt8) :
    readWord 8 (count n ++ rest) = some (n, rest) :=
  readWord_littleEndian hfits rest

/-- The tag of a shape is read back. -/
theorem readWord_tag {n : Nat} (hfits : n < 256 ^ 4) (rest : List UInt8) :
    readWord 4 (tag n ++ rest) = some (n, rest) :=
  readWord_littleEndian hfits rest

/-- A text is read back. -/
theorem readText_writeText {content : String} (hcounts : countsText content = true)
    (rest : List UInt8) : readText (writeText content ++ rest) = some (content, rest) := by
  have hfits : (utf8 content).length < wordRange := by simpa [countsText] using hcounts
  rw [readText, writeText, List.append_assoc, readWord_count hfits]
  simp [takeBytes_append, ofUtf8?_utf8]

/-- A truth value is read back. -/
theorem readBool_cons (flag : Bool) (rest : List UInt8) :
    readBool ((if flag then 1 else 0) :: rest) = some (flag, rest) := by
  cases flag <;> rfl

/-- The bits of a number are read back. -/
theorem readWord_bits (bits : UInt64) (rest : List UInt8) :
    readWord 8 (littleEndian 8 bits.toNat ++ rest) = some (bits.toNat, rest) :=
  readWord_littleEndian bits.toNat_lt rest

/-- A signed word is given back by its bits. -/
theorem ofNat_toNat_toUInt64 (number : Int64) : Int64.ofNat number.toUInt64.toNat = number := by
  rw [← UInt64.toInt64_ofNat', UInt64.ofNat_toNat, Int64.toInt64_toUInt64]

/-- A written value has at least the bytes of its tag. -/
theorem four_le_length_writeValue (value : Value) : 4 ≤ (writeValue value).length := by
  cases value <;> simp only [writeValue, tag, List.length_append, length_littleEndian] <;> omega

mutual

/-- A value is read back, and what follows it is left. -/
theorem readValue_writeValue : ∀ (value : Value) (fuel : Nat) (rest : List UInt8),
    value.counts = true → (writeValue value).length ≤ fuel + 3 →
    readValue fuel (writeValue value ++ rest) = some (value, rest)
  | value, 0, _, _, hfuel => by
    have hlength := four_le_length_writeValue value
    omega
  | .null, fuel + 1, rest, _, _ => by
    simp [readValue, writeValue, readWord_tag]
  | .bool flag, fuel + 1, rest, _, _ => by
    simp [readValue, writeValue, readWord_tag, readBool_cons]
  | .int number, fuel + 1, rest, _, _ => by
    simp [readValue, writeValue, readWord_tag, readWord_bits, ofNat_toNat_toUInt64]
  | .float number, fuel + 1, rest, _, _ => by
    simp [readValue, writeValue, readWord_tag, readWord_bits]
  | .text content, fuel + 1, rest, hcounts, _ => by
    rw [Value.counts] at hcounts
    simp [readValue, writeValue, readWord_tag, readText_writeText hcounts]
  | .list items, fuel + 1, rest, hcounts, hfuel => by
    simp only [Value.counts, Bool.and_eq_true, decide_eq_true_eq] at hcounts
    have hitems : (writeItems items).length ≤ fuel + 2 := by
      simp only [writeValue, List.length_append, tag, count, length_littleEndian] at hfuel
      omega
    simp [readValue, writeValue, readWord_tag, readWord_count hcounts.1,
      readItems_writeItems items fuel rest [] hcounts.2 hitems]
  | .map entries, fuel + 1, rest, hcounts, hfuel => by
    simp only [Value.counts, Bool.and_eq_true, decide_eq_true_eq] at hcounts
    have hentries : (writeEntries entries).length ≤ fuel + 2 := by
      simp only [writeValue, List.length_append, tag, count, length_littleEndian] at hfuel
      omega
    simp [readValue, writeValue, readWord_tag, readWord_count hcounts.1,
      readEntries_writeEntries entries fuel rest [] hcounts.2 hentries]

/-- The items of a list are read back in order. -/
theorem readItems_writeItems : ∀ (items : List Value) (fuel : Nat) (rest : List UInt8)
    (done : List Value), countsItems items = true → (writeItems items).length ≤ fuel + 2 →
    readItems fuel items.length (writeItems items ++ rest) done = some (done.reverse ++ items, rest)
  | [], fuel, rest, done, _, _ => by
    cases fuel <;> simp [readItems, writeItems]
  | item :: items, 0, _, _, _, hfuel => by
    have hlength := four_le_length_writeValue item
    simp only [writeItems, List.length_append] at hfuel
    omega
  | item :: items, fuel + 1, rest, done, hcounts, hfuel => by
    simp only [countsItems, Bool.and_eq_true] at hcounts
    have hlength := four_le_length_writeValue item
    simp only [writeItems, List.length_append] at hfuel
    have hitem := readValue_writeValue item fuel (writeItems items ++ rest) hcounts.1 (by omega)
    have hitems := readItems_writeItems items fuel rest (item :: done) hcounts.2 (by omega)
    simp [readItems, writeItems, hitem, hitems]

/-- The entries of a map are read back in order. -/
theorem readEntries_writeEntries : ∀ (entries : List (String × Value)) (fuel : Nat)
    (rest : List UInt8) (done : List (String × Value)), countsEntries entries = true →
    (writeEntries entries).length ≤ fuel + 2 →
    readEntries fuel entries.length (writeEntries entries ++ rest) done =
      some (done.reverse ++ entries, rest)
  | [], fuel, rest, done, _, _ => by
    cases fuel <;> simp [readEntries, writeEntries]
  | (key, value) :: entries, 0, _, _, _, hfuel => by
    have hlength := four_le_length_writeValue value
    simp only [writeEntries, List.length_append] at hfuel
    omega
  | (key, value) :: entries, fuel + 1, rest, done, hcounts, hfuel => by
    simp only [countsEntries, Bool.and_eq_true] at hcounts
    have hlength := four_le_length_writeValue value
    simp only [writeEntries, List.length_append] at hfuel
    have hkey := readText_writeText hcounts.1.1 (writeValue value ++ (writeEntries entries ++ rest))
    have hvalue := readValue_writeValue value fuel (writeEntries entries ++ rest)
      hcounts.1.2 (by omega)
    have hentries := readEntries_writeEntries entries fuel rest ((key, value) :: done)
      hcounts.2 (by omega)
    simp [readEntries, writeEntries, hkey, hvalue, hentries]

end

/-- A payload is read back, and what follows it is left. -/
theorem readPayload_writePayload {payload : Payload} (hcounts : payload.counts = true)
    (rest : List UInt8) :
    readPayload (writePayload payload ++ rest) = some (payload, rest) := by
  simp only [Payload.counts, Bool.and_eq_true, decide_eq_true_eq] at hcounts
  have hfuel : (writeEntries payload.entries).length ≤
      (writePayload payload ++ rest).length + 1 + 2 := by
    simp only [writePayload, List.length_append]
    omega
  have hentries := readEntries_writeEntries payload.entries _ rest [] hcounts.2 hfuel
  rw [readPayload]
  simp only [writePayload, List.append_assoc, readWord_count hcounts.1, Option.bind_eq_bind,
    Option.bind_some] at hentries ⊢
  rw [hentries]
  simp [Payload.ofEntries_entries]

end Wire.Compact

end RegionGossip
