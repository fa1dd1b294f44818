import RegionGossip.Proofs.Deflate.Front
import RegionGossip.Proofs.Wire.Compact
import RegionGossip.Proofs.Wire.Verbose
import RegionGossip.Wire.Object

/-!
# Encoded objects are read in the form they were written in

The flags at the front of an encoding tell how the rest was written, so what a receiver reads is the
very content that the sender serialized. In the compact form that content always gives the object
back, and in the verbose form it does so where the document of the object can be read.
-/

namespace RegionGossip.Wire

/-- The flags name no third feature, and tell the form and whether the content is deflated. -/
theorem hasFlag_flagsOf (settings : Settings) :
    hasFlag (flagsOf settings) ((compactFlag ||| deflatedFlag) ^^^ 0xff) = false ∧
      hasFlag (flagsOf settings) compactFlag = settings.compact ∧
      hasFlag (flagsOf settings) deflatedFlag = settings.compress := by
  rw [flagsOf]
  cases settings.compact <;> cases settings.compress <;> decide

variable {inflate : List UInt8 → Option (List UInt8)} {deflate : List UInt8 → List UInt8}
  {settings : Settings} {object : WireObject}

/-- Content that was deflated is inflated and read in its form. -/
theorem decodeObjectBy_deflated (hdeflated : settings.compress = true) (bytes : List UInt8) :
    decodeObjectBy inflate (flagsOf settings :: bytes) =
      (inflate bytes).elim (.error (.outOfSync .deflated)) (readObject settings.compact) := by
  obtain ⟨hknown, hcompact, hcompress⟩ := hasFlag_flagsOf settings
  rw [decodeObjectBy, hknown, hcompact, unpackBy, hcompress, hdeflated]
  cases inflate bytes <;> rfl

/-- Without compression what follows the flags is read as it is. -/
theorem decodeObjectBy_plain (hplain : settings.compress = false) (content : List UInt8) :
    decodeObjectBy inflate (flagsOf settings :: content) =
      readObject settings.compact content := by
  obtain ⟨hknown, hcompact, hdeflated⟩ := hasFlag_flagsOf settings
  rw [decodeObjectBy, hknown, hcompact, unpackBy, hdeflated, hplain]
  rfl

/-- Without compression what follows the flags is read as it is. -/
theorem decodeObject_plain (hplain : settings.compress = false) (content : List UInt8) :
    decodeObject (flagsOf settings :: content) = readObject settings.compact content :=
  decodeObjectBy_plain hplain content

/-- Compressed content is read as far as it is inflated. -/
theorem decodeObject_compressed (hundone : Deflate.Undone deflate)
    (hcompress : settings.compress = true) :
    decodeObject (encodeObjectBy deflate settings object) =
      readObject settings.compact ((serialize settings object).take inflatedLimit) := by
  have hfront : inflateContent (deflate (serialize settings object)) =
      some ((serialize settings object).take inflatedLimit) :=
    Deflate.inflateFront?_of_inflate? (hundone _) inflatedLimit
  rw [encodeObjectBy, hcompress, if_pos rfl, decodeObject, decodeObjectBy_deflated hcompress, hfront,
    Option.elim_some]

/-- A way of inflating gives back what was deflated, as long as this is within the limit. -/
def Returns (inflate : List UInt8 → Option (List UInt8)) (deflate : List UInt8 → List UInt8) :
    Prop :=
  ∀ content, content.length ≤ inflatedLimit → inflate (deflate content) = some content

/-- Within the limit nothing of the content is cut off. -/
theorem returns_inflateContent (hundone : Deflate.Undone deflate) :
    Returns inflateContent deflate := by
  intro content hsize
  rw [inflateContent, Deflate.inflateFront?_of_inflate? (hundone content),
    List.take_of_length_le hsize]

/-- An encoding is read as the content that was serialized, in the form that the sender used. -/
theorem decodeObjectBy_encodeObjectBy (hreturns : Returns inflate deflate)
    (hsize : settings.compress = true → (serialize settings object).length ≤ inflatedLimit) :
    decodeObjectBy inflate (encodeObjectBy deflate settings object) =
      readObject settings.compact (serialize settings object) := by
  cases hcompress : settings.compress with
  | false =>
    rw [encodeObjectBy, hcompress]
    exact decodeObjectBy_plain hcompress _
  | true =>
    rw [encodeObjectBy, hcompress, if_pos rfl, decodeObjectBy_deflated hcompress,
      hreturns _ (hsize hcompress), Option.elim_some]

/-- An encoding is read as the content that was serialized, in the form that the sender used. -/
theorem decodeObject_encodeObjectBy (hundone : Deflate.Undone deflate)
    (hsize : settings.compress = true → (serialize settings object).length ≤ inflatedLimit) :
    decodeObject (encodeObjectBy deflate settings object) =
      readObject settings.compact (serialize settings object) :=
  decodeObjectBy_encodeObjectBy (returns_inflateContent hundone) hsize

namespace WireObject

/-- A payload in the compact form is read back. -/
theorem readCompact_share {payload : Payload} (hcounts : payload.counts = true) :
    readCompact (share payload).writeCompact = some (.share payload) := by
  have hread := Compact.readPayload_writePayload hcounts []
  rw [List.append_nil] at hread
  simp [readCompact, writeCompact, Compact.readWord_tag, hread]

/-- An identifier in the compact form is read back as it is spelled. -/
theorem readCompact_node {ident : NodeId} (hcounts : Value.countsText ident.name = true) :
    readCompact (node ident).writeCompact = some (.node ident) := by
  have hread := Compact.readText_writeText hcounts []
  rw [List.append_nil] at hread
  simp [readCompact, writeCompact, Compact.readWord_tag, hread]

/-- A text in the compact form is read back. -/
theorem readCompact_text {content : String} (hcounts : Value.countsText content = true) :
    readCompact (text content).writeCompact = some (.text content) := by
  have hread := Compact.readText_writeText hcounts []
  rw [List.append_nil] at hread
  simp [readCompact, writeCompact, Compact.readWord_tag, hread]

/-- The verbose form of an object is read as its document. -/
theorem readVerbose_writeVerbose {object : WireObject} (hregular : object.document.Regular) :
    readVerbose object.writeVerbose = ofDocument Json.nestingLimit object.document := by
  simp [readVerbose, writeVerbose, ofUtf8?_utf8, Json.parse?_render hregular, Json.readDocument]

/-- The document of a payload can be written. -/
theorem regular_share (payload : Payload) : (share payload).document.Regular :=
  ⟨rfl, Verbose.regularFields_fieldDocuments payload.entries, trivial⟩

/-- The document of a payload nests two levels more than its deepest value: the object that names
the kind, and the one with the positions as its keys. -/
theorem nesting_share (payload : Payload) :
    (share payload).document.nesting = 2 + payload.nesting := by
  have hentries := Verbose.nesting_fieldDocuments payload.entries
  simp only [document, Verbose.tagged, Verbose.payloadDocument, Json.field, Json.nesting,
    Json.nestingOfFields, hentries, Payload.nesting]
  omega

/-- A payload in the verbose form is read exactly when its floats are finite and its document nests
no deeper than documents may. -/
theorem readVerbose_share {change : Binary64 → Binary64} {payload : Payload}
    (hfloats : Verbose.ReadAs change payload.floats) :
    readVerbose (share payload).writeVerbose =
      if Verbose.Readable Json.nestingLimit payload.floats (share payload).document.nesting then
        some (.share (payload.mapFloats change)) else none := by
  have hread := Verbose.readPayload_payloadDocument hfloats 125
  have hopen : ofDocument Json.nestingLimit (share payload).document =
      (Verbose.readPayload 126 (Verbose.payloadDocument payload)).map .share := by
    simp [Json.nestingLimit, document, Verbose.tagged, Json.field, ofDocument]
  have hlevels : Verbose.Readable 127 payload.floats (2 + payload.nesting) ↔
      Verbose.Readable 125 payload.floats payload.nesting := Verbose.readable_two_add
  rw [readVerbose_writeVerbose (regular_share payload), hopen, hread, nesting_share]
  simp only [Json.nestingLimit, hlevels]
  split <;> rfl

/-- An identifier in the verbose form is read back as it is spelled. -/
theorem readVerbose_node (ident : NodeId) :
    readVerbose (node ident).writeVerbose = some (.node ident) := by
  have hregular : (node ident).document.Regular := ⟨rfl, rfl, trivial⟩
  rw [readVerbose_writeVerbose hregular]
  simp [Json.nestingLimit, document, Verbose.tagged, Json.field, Json.str, ofDocument]

/-- A text in the verbose form is read back. -/
theorem readVerbose_text (content : String) :
    readVerbose (text content).writeVerbose = some (.text content) := by
  have hregular : (text content).document.Regular := ⟨rfl, rfl, trivial⟩
  rw [readVerbose_writeVerbose hregular]
  simp [Json.nestingLimit, document, Verbose.tagged, Json.field, Json.str, ofDocument]

end WireObject

end RegionGossip.Wire
