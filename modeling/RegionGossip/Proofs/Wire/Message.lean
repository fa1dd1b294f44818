import RegionGossip.Proofs.Wire.Object
import RegionGossip.Wire.Message

/-!
# What a sender shares is what a receiver gets

A message carries with it the form it was written in, so the settings of the receiver play no part.
In the compact form every payload arrives as it was sent, down to the bits of its floats. The
verbose form loses floats that are no numbers and is not read beyond a fixed nesting; all other
payloads arrive, and the receiver notices where one does not. Whatever deflates the content, it is
enough that inflating undoes it and that the content stays within what is inflated.
-/

namespace RegionGossip.Wire

variable {deflate : List UInt8 → List UInt8} {settings : Settings} {payload : Payload}

/-- What is no object is no message. -/
theorem decodeMessage_of_fault {body : List UInt8} {fault : StreamFault}
    (hobject : decodeObject body = .error (.outOfSync fault)) :
    decodeMessage body = .error (.outOfSync fault) := by
  rw [decodeMessage, hobject]
  rfl

/-- The request to close is short enough to be inflated in full. -/
theorem length_serialize_close (settings : Settings) :
    (serialize settings (.text closeSentinel)).length ≤ inflatedLimit := by
  rw [serialize]
  cases settings.compact <;> decide +kernel

/-- The request to close is read in either form. -/
theorem readObject_close (settings : Settings) :
    readObject settings.compact (serialize settings (.text closeSentinel)) =
      .ok (.text closeSentinel) := by
  rw [serialize, readObject]
  cases settings.compact with
  | true =>
    have hcounts : Value.countsText closeSentinel = true := by decide +kernel
    simp [WireObject.readCompact_text hcounts]
  | false => simp [WireObject.readVerbose_text]

/-- A text is the request to close when it is the agreed one. -/
theorem decodeMessage_encodeCloseBy (hundone : Deflate.Undone deflate) (settings : Settings) :
    decodeMessage (encodeCloseBy deflate settings) = .ok .close := by
  have hobject := decodeObject_encodeObjectBy hundone
    (fun _ : settings.compress = true => length_serialize_close settings)
  rw [readObject_close] at hobject
  rw [decodeMessage, encodeCloseBy, hobject]
  rfl

/-- A payload in the verbose form is a message exactly when its document is read, and then its floats
are what their numerals are read as. -/
theorem decodeMessage_verbose_changed {change : Binary64 → Binary64}
    (hundone : Deflate.Undone deflate) (hverbose : settings.compact = false)
    (hsize : settings.compress = true →
      (serialize settings (.share payload)).length ≤ inflatedLimit)
    (hfloats : Verbose.ReadAs change payload.floats) :
    decodeMessage (encodeShareBy deflate settings payload) =
      if Verbose.Readable Json.nestingLimit payload.floats
          (WireObject.share payload).document.nesting then
        .ok (.share (payload.mapFloats change))
      else .error (.outOfSync .verboseObject) := by
  have hserialize : serialize settings (.share payload) =
      (WireObject.share payload).writeVerbose := by
    rw [serialize, hverbose, if_neg (by simp)]
  have hobject := decodeObject_encodeObjectBy hundone hsize
  rw [hverbose, hserialize, readObject, if_neg (by simp), WireObject.readVerbose_share hfloats]
    at hobject
  rw [decodeMessage, encodeShareBy, hobject]
  by_cases hreadable : Verbose.Readable Json.nestingLimit payload.floats
      (WireObject.share payload).document.nesting
  · rw [if_pos hreadable, if_pos hreadable]
    rfl
  · rw [if_neg hreadable, if_neg hreadable]
    rfl

/-- A payload whose floats are read back arrives as it is exactly when its document is read. -/
theorem decodeMessage_verbose (hundone : Deflate.Undone deflate) (hverbose : settings.compact = false)
    (hsize : settings.compress = true →
      (serialize settings (.share payload)).length ≤ inflatedLimit)
    (hfloats : Verbose.ReadAs id payload.floats) :
    decodeMessage (encodeShareBy deflate settings payload) =
      if Verbose.Readable Json.nestingLimit payload.floats
          (WireObject.share payload).document.nesting then
        .ok (.share payload)
      else .error (.outOfSync .verboseObject) := by
  have hmessage := decodeMessage_verbose_changed hundone hverbose hsize hfloats
  rwa [Payload.mapFloats_id] at hmessage

/-- In the verbose form a payload arrives exactly when its floats are finite and its document nests
at most 127 arrays and objects; the receiver notices every other one. The document nests two levels
more than the deepest value. -/
theorem verbose_share_arrives_iff (hundone : Deflate.Undone deflate)
    (hverbose : settings.compact = false)
    (hsize : settings.compress = true →
      (serialize settings (.share payload)).length ≤ inflatedLimit)
    (hfloats : ∀ x ∈ payload.floats, x.isFinite = true →
      Json.readFloat (Binary64.Layout.wire.numeral x) = some x) :
    (decodeMessage (encodeShareBy deflate settings payload) = .ok (.share payload) ↔
      (∀ x ∈ payload.floats, x.isFinite = true) ∧
        (WireObject.share payload).document.nesting ≤ 127) ∧
    (¬ ((∀ x ∈ payload.floats, x.isFinite = true) ∧
        (WireObject.share payload).document.nesting ≤ 127) →
      decodeMessage (encodeShareBy deflate settings payload) =
        .error (.outOfSync .verboseObject)) ∧
    (WireObject.share payload).document.nesting = 2 + payload.nesting := by
  have hmessage := decodeMessage_verbose hundone hverbose hsize hfloats
  have hnesting := WireObject.nesting_share payload
  by_cases hreadable : Verbose.Readable Json.nestingLimit payload.floats
      (WireObject.share payload).document.nesting
  · rw [if_pos hreadable] at hmessage
    exact ⟨⟨fun _ => hreadable, fun _ => hmessage⟩, fun hunreadable => absurd hreadable hunreadable,
      hnesting⟩
  · rw [if_neg hreadable] at hmessage
    refine ⟨⟨fun harrives => ?_, fun hwithin => absurd hwithin hreadable⟩, fun _ => hmessage,
      hnesting⟩
    rw [hmessage] at harrives
    exact absurd harrives (by simp)

/-- A list with a fraction in it arrives in the verbose form, and an infinite float next to it is
noticed by the receiver. -/
theorem verbose_fraction_arrives :
    decodeMessage (encodeShareBy Deflate.deflate { compact := false, compress := true }
        (.ofEntries [("a", .list [.float ⟨0x3fb999999999999a⟩, .int (-7)])])) =
      .ok (.share (.ofEntries [("a", .list [.float ⟨0x3fb999999999999a⟩, .int (-7)])])) ∧
    decodeMessage (encodeShareBy Deflate.deflate { compact := false, compress := true }
        (.ofEntries [("a", .list [.float ⟨0x3fb999999999999a⟩, .float ⟨0x7ff0000000000000⟩])])) =
      .error (.outOfSync .verboseObject) := by
  constructor
  · refine (verbose_share_arrives_iff Deflate.undone_deflate rfl ?_ ?_).1.2 ?_ <;> decide +kernel
  · refine (verbose_share_arrives_iff Deflate.undone_deflate rfl ?_ ?_).2.1 ?_ <;> decide +kernel

/-- A payload in the compact form is a message. -/
theorem decodeMessage_compact (hundone : Deflate.Undone deflate) (hcompact : settings.compact = true)
    (hcounts : payload.counts = true)
    (hsize : settings.compress = true →
      (serialize settings (.share payload)).length ≤ inflatedLimit) :
    decodeMessage (encodeShareBy deflate settings payload) = .ok (.share payload) := by
  have hserialize : serialize settings (.share payload) =
      (WireObject.share payload).writeCompact := by
    rw [serialize, hcompact, if_pos rfl]
  have hobject := decodeObject_encodeObjectBy hundone hsize
  rw [hcompact, hserialize, readObject, if_pos rfl, WireObject.readCompact_share hcounts]
    at hobject
  rw [decodeMessage, encodeShareBy, hobject]
  rfl

/-- In the compact form every payload arrives as it was sent, and so does the request to close
under all settings. -/
theorem compact_message_arrives (hundone : Deflate.Undone deflate) :
    (∀ (settings : Settings) (payload : Payload), settings.compact = true →
      payload.counts = true →
      (settings.compress = true →
        (serialize settings (.share payload)).length ≤ inflatedLimit) →
      decodeMessage (encodeShareBy deflate settings payload) = .ok (.share payload)) ∧
    ∀ settings : Settings, decodeMessage (encodeCloseBy deflate settings) = .ok .close := by
  exact ⟨fun settings payload hcompact hcounts hsize =>
    decodeMessage_compact hundone hcompact hcounts hsize, decodeMessage_encodeCloseBy hundone⟩

/-- A payload with one value of every shape, among them an undefined float with bits of its own, an
infinite one and a negative zero. -/
def mixedPayload : Payload := .ofEntries [
  ("lüft", .list [.float ⟨0x7ff8000000000007⟩, .float ⟨0xfff0000000000000⟩,
    .float ⟨0x8000000000000000⟩, .map [("inner", .list [.null, .bool true])]]),
  ("count", .int (-9223372036854775808)),
  ("name", .text "\"a\\b\n")]

/-- The mixed payload arrives in the compact form, deflated, with all its bits. -/
theorem compact_mixedPayload_arrives :
    mixedPayload.counts = true ∧
      decodeMessage (encodeShareBy Deflate.deflate { compact := true, compress := true }
        mixedPayload) = .ok (.share mixedPayload) := by
  have hcounts : mixedPayload.counts = true := by decide +kernel
  refine ⟨hcounts, (compact_message_arrives Deflate.undone_deflate).1 _ _ rfl hcounts ?_⟩
  intro _
  decide +kernel

end RegionGossip.Wire
