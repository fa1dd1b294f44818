import RegionGossip.Proofs.Json.Cuts
import RegionGossip.Proofs.Text.Utf8
import RegionGossip.Proofs.Wire.Message
import RegionGossip.Proofs.Wire.Prefixes

/-!
# Encodings that are cut short or go on

An encoding that is cut anywhere is no message, in either form: the compact form is read to its last
byte, and the verbose form is a document only with its last brace. What stands behind an encoding is
not looked at in the compact form, while in the verbose form only white space may stand there. All
of this holds without compression, whatever the object is.
-/

namespace RegionGossip.Wire

/-- The bytes of the four characters that may stand around a document. -/
def isSpaceByte (byte : UInt8) : Bool := byte = 0x20 || byte = 0x0a || byte = 0x09 || byte = 0x0d

/-- The bytes of white space are those of characters that are. -/
theorem all_isSpaceByte_iff {bytes : List UInt8} :
    bytes.all isSpaceByte = true ↔
      ∃ text : List Char, text.all Json.isSpace = true ∧ utf8 (String.ofList text) = bytes := by
  constructor
  · intro hspaces
    induction bytes with
    | nil => exact ⟨[], rfl, rfl⟩
    | cons byte bytes ih =>
      rw [List.all_cons, Bool.and_eq_true] at hspaces
      obtain ⟨text, htext, rfl⟩ := ih hspaces.2
      have hbyte : byte = 0x20 ∨ byte = 0x0a ∨ byte = 0x09 ∨ byte = 0x0d := by
        simpa [isSpaceByte, or_assoc] using hspaces.1
      have hcons (c : Char) : utf8 (String.ofList (c :: text)) =
          String.utf8EncodeChar c ++ utf8 (String.ofList text) := by
        simp [utf8_eq_flatMap]
      rcases hbyte with rfl | rfl | rfl | rfl
      · exact ⟨' ' :: text, htext, hcons _⟩
      · exact ⟨'\n' :: text, htext, hcons _⟩
      · exact ⟨'\t' :: text, htext, hcons _⟩
      · exact ⟨'\r' :: text, htext, hcons _⟩
  · rintro ⟨text, htext, rfl⟩
    rw [utf8_eq_flatMap, String.toList_ofList, List.all_flatMap]
    refine List.all_eq_true.2 fun c hc => ?_
    have hspace : c = ' ' ∨ c = '\n' ∨ c = '\t' ∨ c = '\r' := by
      simpa [Json.isSpace, or_assoc] using List.all_eq_true.1 htext c hc
    rcases hspace with rfl | rfl | rfl | rfl <;> decide

namespace WireObject

variable {object : WireObject} {front back : List UInt8}

/-- The document of an object can be written. -/
theorem regular_document : ∀ object : WireObject, object.document.Regular
  | .node _ => ⟨rfl, rfl, trivial⟩
  | .share payload => regular_share payload
  | .text _ => ⟨rfl, rfl, trivial⟩

/-- The document of an object is itself an object. -/
theorem exists_document_eq (object : WireObject) :
    ∃ fields, object.document = .object fields := by
  cases object <;> exact ⟨_, rfl⟩

/-- A number is no object's document. -/
theorem ofDocument_number (depth : Nat) (numeral : Numeral) :
    ofDocument depth (.number numeral) = none := by
  cases depth <;> rfl

/-- No proper front of the verbose form of an object is read. -/
theorem readVerbose_front (hcut : object.writeVerbose = front ++ back) (hback : back ≠ []) :
    readVerbose front = none := by
  cases hread : readVerbose front with
  | none => rfl
  | some other =>
    simp only [readVerbose, Option.bind_eq_bind, Option.bind_eq_some_iff] at hread
    obtain ⟨text, htext, document, hdocument, hobject⟩ := hread
    have hnumber : ∀ numeral, document ≠ .number numeral := by
      rintro numeral rfl
      rw [Json.readDocument, ofDocument_number] at hobject
      contradiction
    obtain ⟨fields, hfields⟩ := exists_document_eq object
    have hregular := regular_document object
    rw [writeVerbose, ← utf8_of_ofUtf8? htext] at hcut
    rw [hfields] at hcut hregular
    obtain ⟨more, hmore, rfl⟩ := exists_of_utf8_append hcut
    rw [Json.render, String.toList_ofList] at hmore
    obtain rfl := Json.eq_nil_of_ofChars? hregular hmore hdocument hnumber
    exact absurd rfl hback

/-- Behind the verbose form of an object only white space is accepted. -/
theorem readVerbose_append (object : WireObject) (more : List UInt8) :
    readVerbose (object.writeVerbose ++ more) =
      if more.all isSpaceByte then readVerbose object.writeVerbose else none := by
  have hregular := regular_document object
  have hnumber : ∀ numeral, object.document ≠ .number numeral := by
    obtain ⟨fields, hfields⟩ := exists_document_eq object
    simp [hfields]
  have happend := Json.ofChars?_append (Json.ofChars?_chars hregular) hnumber
  split
  · rename_i hspaces
    obtain ⟨text, htext, rfl⟩ := all_isSpaceByte_iff.1 hspaces
    rw [readVerbose_writeVerbose hregular, writeVerbose, Json.render, ← utf8_ofList_append,
      readVerbose, ofUtf8?_utf8]
    simp [Json.parse?, happend, htext, Json.readDocument]
  · rename_i hother
    cases hbytes : ofUtf8? (object.writeVerbose ++ more) with
    | none => rw [readVerbose, hbytes]; rfl
    | some text =>
      obtain ⟨rest, hrest, rfl⟩ := exists_of_utf8_append (utf8_of_ofUtf8? hbytes)
      rw [Json.render, String.toList_ofList] at hrest
      have hspaces : rest.all Json.isSpace = false :=
        Bool.eq_false_iff.2 fun hrest => hother (all_isSpaceByte_iff.2 ⟨rest, hrest, rfl⟩)
      rw [readVerbose, hbytes]
      simp [Json.parse?, hrest, happend, hspaces]

end WireObject

section Plain

variable {settings : Settings} {object : WireObject} {front back : List UInt8}

/-- Without compression the flags stand in front of the object as it was serialized. -/
theorem encodeObject_plain (hplain : settings.compress = false) (object : WireObject) :
    encodeObject settings object = flagsOf settings :: serialize settings object := by
  rw [encodeObject, encodeObjectBy, hplain]
  rfl

/-- No proper front of a serialized object is read. -/
theorem readObject_front (hcounts : settings.compact = true → object.counts = true)
    (hcut : serialize settings object = front ++ back) (hback : back ≠ []) :
    ∃ fault, readObject settings.compact front = .error (.outOfSync fault) := by
  rw [serialize] at hcut
  rw [readObject]
  cases hcompact : settings.compact with
  | true =>
    rw [hcompact, if_pos rfl] at hcut
    have hread := WireObject.readCompact_front (hcounts hcompact) hcut hback
    exact ⟨.compactObject, by rw [if_pos rfl, hread]⟩
  | false =>
    rw [hcompact, if_neg Bool.false_ne_true] at hcut
    have hread := WireObject.readVerbose_front hcut hback
    exact ⟨.verboseObject, by rw [if_neg Bool.false_ne_true, hread]⟩

/-- Behind a serialized object the compact reader ignores everything, and the verbose one white
space. -/
theorem readObject_append (hcounts : settings.compact = true → object.counts = true)
    {more : List UInt8} (hmore : settings.compact = true ∨ more.all isSpaceByte = true) :
    readObject settings.compact (serialize settings object ++ more) =
      readObject settings.compact (serialize settings object) := by
  rw [serialize, readObject, readObject]
  cases hcompact : settings.compact with
  | true =>
    have halone := WireObject.readCompact_append (hcounts hcompact) []
    rw [List.append_nil] at halone
    simp [WireObject.readCompact_append (hcounts hcompact), halone]
  | false =>
    have hspaces : more.all isSpaceByte = true := hmore.resolve_left (by simp [hcompact])
    simp [WireObject.readVerbose_append, hspaces]

/-- Behind a verbose object nothing else is accepted. -/
theorem readObject_verbose_append (hverbose : settings.compact = false) {more : List UInt8}
    (hmore : more.all isSpaceByte = false) :
    readObject settings.compact (serialize settings object ++ more) =
      .error (.outOfSync .verboseObject) := by
  simp [serialize, readObject, hverbose, WireObject.readVerbose_append, hmore]

/-- Without compression no proper front of an encoding is a message, in either form: neither of a
payload, whatever is in it, nor of the request to close. With more bytes behind it a compact encoding
is what it is alone, and so is a verbose one if they are white space; otherwise it is no message. -/
theorem truncated_never_decodes (settings : Settings) (object : WireObject)
    (hplain : settings.compress = false) (hcounts : settings.compact = true → object.counts = true) :
    (∀ front, front <+: encodeObject settings object → front ≠ encodeObject settings object →
      ∃ fault, decodeMessage front = .error (.outOfSync fault)) ∧
    ∀ more : List UInt8,
      (settings.compact = true ∨ more.all isSpaceByte = true →
        decodeMessage (encodeObject settings object ++ more) =
          decodeMessage (encodeObject settings object)) ∧
      (settings.compact = false → more.all isSpaceByte = false →
        ∃ fault, decodeMessage (encodeObject settings object ++ more) =
          .error (.outOfSync fault)) := by
  rw [encodeObject_plain hplain]
  refine ⟨?_, fun more => ⟨fun hmore => ?_, fun hverbose hmore => ⟨.verboseObject, ?_⟩⟩⟩
  · rintro front ⟨back, hfront⟩ hproper
    have hback : back ≠ [] := by
      rintro rfl
      exact hproper (by rwa [List.append_nil] at hfront)
    cases front with
    | nil => exact ⟨.emptyObject, rfl⟩
    | cons flags front =>
      obtain ⟨rfl, hcut⟩ := List.cons.inj hfront
      obtain ⟨fault, hread⟩ := readObject_front hcounts hcut.symm hback
      exact ⟨fault, decodeMessage_of_fault ((decodeObject_plain hplain front).trans hread)⟩
  · rw [List.cons_append, decodeMessage, decodeMessage, decodeObject_plain hplain,
      decodeObject_plain hplain, readObject_append hcounts hmore]
  · rw [List.cons_append]
    exact decodeMessage_of_fault
      ((decodeObject_plain hplain _).trans (readObject_verbose_append hverbose hmore))

end Plain

/-- A payload of one entry. -/
def shortPayload : Payload := .ofEntries [("lüft", .int (-12))]

/-- A verbose payload that is cut inside a letter of two bytes is no message, and neither is one with
a further brace; a line end behind it does not matter. The compact request to close is no message
without its last byte, and ignores a further one. -/
theorem shortPayload_cut_and_continued :
    (∃ fault, decodeMessage ((encodeShare { compact := false, compress := false } shortPayload).take
      14) = .error (.outOfSync fault)) ∧
    decodeMessage (encodeShare { compact := false, compress := false } shortPayload ++ [0x0a]) =
      decodeMessage (encodeShare { compact := false, compress := false } shortPayload) ∧
    (∃ fault, decodeMessage (encodeShare { compact := false, compress := false } shortPayload ++
      [0x7d]) = .error (.outOfSync fault)) ∧
    (∃ fault, decodeMessage (encodeClose { compact := true, compress := false }).dropLast =
      .error (.outOfSync fault)) ∧
    decodeMessage (encodeClose { compact := true, compress := false } ++ [0x7d]) =
      decodeMessage (encodeClose { compact := true, compress := false }) := by
  have hshare := truncated_never_decodes { compact := false, compress := false }
    (.share shortPayload) rfl nofun
  have hclose := truncated_never_decodes { compact := true, compress := false }
    (.text closeSentinel) rfl fun _ => by decide +kernel
  refine ⟨hshare.1 _ (List.take_prefix _ _) ?_, (hshare.2 _).1 (.inr rfl),
    (hshare.2 _).2 rfl rfl, hclose.1 _ (List.dropLast_prefix _) ?_, (hclose.2 _).1 (.inl rfl)⟩
  · decide +kernel
  · decide +kernel

end RegionGossip.Wire
