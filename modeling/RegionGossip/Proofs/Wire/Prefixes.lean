import RegionGossip.Proofs.Wire.Compact
import RegionGossip.Proofs.Wire.Framing
import RegionGossip.Wire.Object

/-!
# What the compact reader does with longer input

A reader of the compact form never looks behind what it takes: with more bytes behind them it takes
the same ones, and leaves the others. So bytes that are read cannot be a proper front of bytes that
are read to their end.
-/

namespace RegionGossip.Wire

variable {α β : Type} {bytes more : List UInt8}

/-- What was read is read again where more bytes stand behind, and these are left. -/
def Extends (more : List UInt8) (shorter longer : Option (α × List UInt8)) : Prop :=
  ∀ value rest, shorter = some (value, rest) → longer = some (value, rest ++ more)

namespace Extends

/-- A value that is already there leaves the further bytes. -/
theorem pure (value : α) (rest : List UInt8) :
    Extends more (Pure.pure (value, rest)) (Pure.pure (value, rest ++ more)) := by
  intro _ _ hread
  obtain ⟨rfl, rfl⟩ := Prod.mk.inj (Option.some.inj hread)
  rfl

/-- Where nothing was read, nothing is promised. -/
theorem none (longer : Option (α × List UInt8)) : Extends more .none longer :=
  fun _ _ hread => nomatch hread

/-- Where the longer bytes are read to their end, no bytes stand behind the shorter ones. -/
theorem eq_nil {shorter longer : Option (α × List UInt8)} (hextends : Extends more shorter longer)
    {whole : α} (hlonger : longer = some (whole, [])) (hshorter : shorter.isSome = true) :
    more = [] := by
  obtain ⟨⟨value, rest⟩, hvalue⟩ := Option.isSome_iff_exists.1 hshorter
  rw [hextends value rest hvalue] at hlonger
  exact (List.append_eq_nil_iff.1 (Prod.mk.inj (Option.some.inj hlonger)).2).2

/-- One reader after the other. -/
theorem bind {first second : Option (α × List UInt8)}
    {shorter longer : α × List UInt8 → Option (β × List UInt8)} (hfirst : Extends more first second)
    (hthen : ∀ value rest, Extends more (shorter (value, rest)) (longer (value, rest ++ more))) :
    Extends more (first >>= shorter) (second >>= longer) := by
  intro result rest hread
  obtain ⟨⟨value, left⟩, hvalue, hresult⟩ := Option.bind_eq_some_iff.1 hread
  rw [hfirst value left hvalue]
  exact hthen value left result rest hresult

end Extends

/-- A number of bytes that is taken is taken in front of more. -/
theorem takeBytes_extends (count : Nat) (bytes more : List UInt8) :
    Extends more (takeBytes count bytes) (takeBytes count (bytes ++ more)) := by
  intro front rest htake
  rcases takeBytes_cases count bytes with ⟨-, hnone⟩ | ⟨taken, left, hlength, rfl, hsome⟩
  · rw [hnone] at htake
    contradiction
  · rw [htake] at hsome
    obtain ⟨rfl, rfl⟩ := Prod.mk.inj (Option.some.inj hsome)
    rw [List.append_assoc, takeBytes_of_length hlength]

/-- A word is read in front of more bytes. -/
theorem readWord_extends (width : Nat) (bytes more : List UInt8) :
    Extends more (readWord width bytes) (readWord width (bytes ++ more)) :=
  (takeBytes_extends width bytes more).bind fun _ _ => .pure _ _

namespace Compact

/-- A text is read in front of more bytes. -/
theorem readText_extends (bytes more : List UInt8) :
    Extends more (readText bytes) (readText (bytes ++ more)) := by
  refine (readWord_extends 8 bytes more).bind fun length later =>
    (takeBytes_extends length later more).bind fun content rest => ?_
  dsimp only
  cases ofUtf8? content with
  | none => exact .none _
  | some text => exact .pure _ _

/-- A truth value is read in front of more bytes. -/
theorem readBool_extends (bytes more : List UInt8) :
    Extends more (readBool bytes) (readBool (bytes ++ more)) := by
  fun_cases readBool bytes with
  | case1 rest => exact .pure _ _
  | case2 rest => exact .pure _ _
  | case3 => exact .none _

mutual

/-- A value is read in front of more bytes, also with more fuel. -/
theorem readValue_extends : ∀ {fuel larger : Nat}, fuel ≤ larger → ∀ bytes more : List UInt8,
    Extends more (readValue fuel bytes) (readValue larger (bytes ++ more))
  | 0, _, _, _, _ => .none _
  | _ + 1, 0, hfuel, _, _ => absurd hfuel (Nat.not_succ_le_zero _)
  | fuel + 1, larger + 1, hfuel, bytes, more => by
    have hfuel := Nat.le_of_succ_le_succ hfuel
    refine (readWord_extends 4 bytes more).bind fun shape rest => ?_
    dsimp only
    split
    · exact .pure _ _
    · exact (readBool_extends rest more).bind fun _ _ => .pure _ _
    · exact (readWord_extends 8 rest more).bind fun _ _ => .pure _ _
    · exact (readWord_extends 8 rest more).bind fun _ _ => .pure _ _
    · exact (readText_extends rest more).bind fun _ _ => .pure _ _
    · exact (readWord_extends 8 rest more).bind fun size later =>
        (readItems_extends hfuel size later more []).bind fun _ _ => .pure _ _
    · exact (readWord_extends 8 rest more).bind fun size later =>
        (readEntries_extends hfuel size later more []).bind fun _ _ => .pure _ _
    · exact .none _

/-- Items are read in front of more bytes, also with more fuel. -/
theorem readItems_extends : ∀ {fuel larger : Nat}, fuel ≤ larger →
    ∀ (size : Nat) (bytes more : List UInt8) (done : List Value),
    Extends more (readItems fuel size bytes done) (readItems larger size (bytes ++ more) done)
  | fuel, larger, _, 0, bytes, more, done => by
    rw [readItems.eq_1, readItems.eq_1]
    exact .pure _ _
  | 0, _, _, _ + 1, _, _, _ => .none _
  | _ + 1, 0, hfuel, _ + 1, _, _, _ => absurd hfuel (Nat.not_succ_le_zero _)
  | fuel + 1, larger + 1, hfuel, size + 1, bytes, more, done =>
    have hfuel := Nat.le_of_succ_le_succ hfuel
    (readValue_extends hfuel bytes more).bind fun item rest =>
      readItems_extends hfuel size rest more (item :: done)

/-- Entries are read in front of more bytes, also with more fuel. -/
theorem readEntries_extends : ∀ {fuel larger : Nat}, fuel ≤ larger →
    ∀ (size : Nat) (bytes more : List UInt8) (done : List (String × Value)),
    Extends more (readEntries fuel size bytes done) (readEntries larger size (bytes ++ more) done)
  | fuel, larger, _, 0, bytes, more, done => by
    rw [readEntries.eq_1, readEntries.eq_1]
    exact .pure _ _
  | 0, _, _, _ + 1, _, _, _ => .none _
  | _ + 1, 0, hfuel, _ + 1, _, _, _ => absurd hfuel (Nat.not_succ_le_zero _)
  | fuel + 1, larger + 1, hfuel, size + 1, bytes, more, done =>
    have hfuel := Nat.le_of_succ_le_succ hfuel
    (readText_extends bytes more).bind fun key later =>
      (readValue_extends hfuel later more).bind fun value rest =>
        readEntries_extends hfuel size rest more ((key, value) :: done)

end

/-- A payload is read in front of more bytes. -/
theorem readPayload_extends (bytes more : List UInt8) :
    Extends more (readPayload bytes) (readPayload (bytes ++ more)) := by
  have hfuel : bytes.length + 1 ≤ (bytes ++ more).length + 1 := by simp
  exact (readWord_extends 8 bytes more).bind fun size later =>
    (readEntries_extends hfuel size later more []).bind fun _ _ => .pure _ _

end Compact

namespace WireObject

/-- Everything in an object has a number of parts that fits a word. -/
def counts : WireObject → Bool
  | .node ident => Value.countsText ident.name
  | .share payload => payload.counts
  | .text content => Value.countsText content

/-- The object at the front of some bytes, and the bytes after it. -/
def readFront (bytes : List UInt8) : Option (WireObject × List UInt8) := do
  let (shape, rest) ← readWord 4 bytes
  match shape with
  | 0 =>
    let (name, rest) ← Compact.readText rest
    return (.node ⟨name⟩, rest)
  | 1 =>
    let (payload, rest) ← Compact.readPayload rest
    return (.share payload, rest)
  | 2 =>
    let (content, rest) ← Compact.readText rest
    return (.text content, rest)
  | _ => none

/-- A receiver takes the object and drops the bytes after it. -/
theorem readCompact_eq (bytes : List UInt8) : readCompact bytes = (readFront bytes).map Prod.fst := by
  rw [readCompact, readFront]
  cases readWord 4 bytes with
  | none => rfl
  | some tagged =>
    obtain ⟨shape, rest⟩ := tagged
    simp only [Option.bind_eq_bind, Option.bind_some]
    rcases shape with _ | _ | _ | shape
    · cases Compact.readText rest <;> rfl
    · cases Compact.readPayload rest <;> rfl
    · cases Compact.readText rest <;> rfl
    · rfl

/-- An object is read in front of more bytes. -/
theorem readFront_extends (bytes more : List UInt8) :
    Extends more (readFront bytes) (readFront (bytes ++ more)) := by
  refine (readWord_extends 4 bytes more).bind fun shape rest => ?_
  dsimp only
  split
  · exact (Compact.readText_extends rest more).bind fun _ _ => .pure _ _
  · exact (Compact.readPayload_extends rest more).bind fun _ _ => .pure _ _
  · exact (Compact.readText_extends rest more).bind fun _ _ => .pure _ _
  · exact .none _

/-- An object is read back, and what follows it is left. -/
theorem readFront_writeCompact {object : WireObject} (hcounts : object.counts = true)
    (rest : List UInt8) : readFront (object.writeCompact ++ rest) = some (object, rest) := by
  cases object with
  | node ident =>
    simp [readFront, writeCompact, Compact.readWord_tag, Compact.readText_writeText hcounts]
  | share payload =>
    simp [readFront, writeCompact, Compact.readWord_tag, Compact.readPayload_writePayload hcounts]
  | text content =>
    simp [readFront, writeCompact, Compact.readWord_tag, Compact.readText_writeText hcounts]

/-- Bytes after an object in the compact form make no difference. -/
theorem readCompact_append {object : WireObject} (hcounts : object.counts = true)
    (more : List UInt8) : readCompact (object.writeCompact ++ more) = some object := by
  rw [readCompact_eq, readFront_writeCompact hcounts]
  rfl

/-- No proper front of the compact form of an object is read. -/
theorem readCompact_front {object : WireObject} (hcounts : object.counts = true)
    {front back : List UInt8} (hcut : object.writeCompact = front ++ back) (hback : back ≠ []) :
    readCompact front = none := by
  have hwhole := readFront_writeCompact hcounts []
  rw [List.append_nil, hcut] at hwhole
  cases hfront : readFront front with
  | none => rw [readCompact_eq, hfront, Option.map_none]
  | some taken =>
    exact absurd ((readFront_extends front back).eq_nil hwhole (by rw [hfront]; rfl)) hback

end WireObject

end RegionGossip.Wire
