import RegionGossip.Proofs.SortedMap.Lookup
import RegionGossip.Value

/-!
# Values in normal form stay as they are

Putting a value into normal form changes nothing where it already is in that form. A payload holds
only such values in increasing order of their positions, so it is the payload of its own entries.
-/

namespace RegionGossip

namespace Value

mutual

/-- A value in normal form is its own normal form. -/
theorem normalize_of_normal : ∀ {value : Value}, Normal value → value.normalize = value
  | .null, _ => rfl
  | .bool _, _ => rfl
  | .int _, _ => rfl
  | .float _, _ => rfl
  | .text _, _ => rfl
  | .list _, .list hitems => by rw [normalize, normalizeItems_of_normal hitems]
  | .map _, .map hincreasing hentries => by
    rw [normalize, normalizeEntries_of_normal hentries, SortedMap.entries_ofList hincreasing]

/-- Items in normal form are their own normal forms. -/
theorem normalizeItems_of_normal :
    ∀ {items : List Value}, NormalItems items → normalizeItems items = items
  | [], _ => rfl
  | _ :: _, .cons hitem hrest => by
    rw [normalizeItems, normalize_of_normal hitem, normalizeItems_of_normal hrest]

/-- Entries with values in normal form stay as they are. -/
theorem normalizeEntries_of_normal :
    ∀ {entries : List (String × Value)}, NormalEntries entries → normalizeEntries entries = entries
  | [], _ => rfl
  | (_, _) :: _, .cons hvalue hrest => by
    rw [normalizeEntries, normalize_of_normal hvalue, normalizeEntries_of_normal hrest]

end

end Value

namespace Payload

/-- Payloads with the same entries are the same. -/
theorem ext_entries {left right : Payload} (hentries : left.entries = right.entries) :
    left = right := by
  obtain ⟨⟨_, _⟩, _⟩ := left
  obtain ⟨⟨_, _⟩, _⟩ := right
  cases hentries
  rfl

/-- A payload is made of its entries. -/
theorem ofEntries_entries (payload : Payload) : ofEntries payload.entries = payload := by
  refine ext_entries ?_
  show (SortedMap.ofList (Value.normalizeEntries payload.entries)).entries = payload.entries
  have hnormal : Value.NormalEntries payload.entries := Value.normalEntries_iff.2 payload.normal
  rw [Value.normalizeEntries_of_normal hnormal]
  exact SortedMap.entries_ofList payload.values.increasing

end Payload

end RegionGossip
