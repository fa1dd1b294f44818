import RegionGossip.Proofs.Json.Cuts
import RegionGossip.Proofs.Text.Utf8
import RegionGossip.Proofs.Wire.Framing
import RegionGossip.Proofs.Wire.Message

/-!
# Greetings and messages are told apart

A greeting begins with a length and a message with flags, and nothing else says which of them a body
is. Yet no body within the limit is taken for the other kind. Its length begins with a zero byte,
which as flags announces a text without compression; but the flags that follow inside are a control
character, which no document holds. The flags of a message begin a length that is too large for its
body, unless they are zero; then a document follows, and the letter that stands where the flags of
the identifier are looked for has bits that no flags have. What a sender deflates does not matter.
-/

namespace RegionGossip.Wire

variable {deflate : List UInt8 → List UInt8} {settings : Settings}

/-- The bits of a byte of flags that have no meaning. -/
def unknownMask : UInt8 := (compactFlag ||| deflatedFlag) ^^^ 0xff

/-- The lengths that are within the limit begin with a zero byte. -/
theorem exists_bigEndian_eq {n : Nat} (hbound : n < 2 ^ 24) :
    ∃ tail, bigEndian 4 n = 0 :: tail := by
  have htop : n / 256 / 256 / 256 = 0 := by omega
  refine ⟨[UInt8.ofNat (n / 256 / 256), UInt8.ofNat (n / 256), UInt8.ofNat n], ?_⟩
  simp [bigEndian, littleEndian, htop]

/-- Four bytes that stand for a number are the bytes of that number. -/
theorem eq_bigEndian_of_signedWord {word : List UInt8} (hword : word.length = 4) {n : Nat}
    (hsigned : signedWord word = n) : word = bigEndian 4 n := by
  have hbound : ofBigEndian word < 2 ^ 32 := ofBigEndian_lt hword
  have hvalue : ofBigEndian word = n := by
    rw [signedWord, Int32.toInt_ofNat', Int.bmod_def, Int32.size] at hsigned
    split at hsigned <;> omega
  rw [← hvalue, bigEndian_ofBigEndian hword]

/-! ## Messages are no greetings -/

/-- A body is no greeting if the length it begins with is not that of an object inside. -/
theorem decodeHello_of_object {body : List UInt8}
    (hobject : helloMinLength ≤ body.length →
      signedWord (body.take 4) = ((body.length - helloMinLength : Nat) : Int) →
      ∃ fault, decodeObject ((body.drop 4).take (body.length - helloMinLength)) =
        .error (.outOfSync fault)) :
    ∃ fault, decodeHello body = .error (.outOfSync fault) := by
  rw [decodeHello, decodeHelloBy]
  dsimp only
  split
  · exact ⟨_, rfl⟩
  · rename_i hlong
    split
    · rename_i hdeclared
      have hminimum := Nat.le_of_not_lt hlong
      obtain ⟨fault, hfault⟩ := hobject hminimum (by rw [hdeclared, Int.ofNat_sub hminimum])
      rw [decodeObject] at hfault
      exact ⟨fault, by rw [hfault]; rfl⟩
    · exact ⟨_, rfl⟩

/-- Flags other than zero begin a length that is too large for the body. -/
theorem decodeHello_of_flags {flags : UInt8} (hflags : flags ≠ 0) {content : List UInt8}
    (hsize : (flags :: content).length ≤ maxFrameLength) :
    ∃ fault, decodeHello (flags :: content) = .error (.outOfSync fault) := by
  refine decodeHello_of_object fun hminimum hdeclared => absurd ?_ hflags
  have hword : ((flags :: content).take 4).length = 4 :=
    List.length_take_of_le (Nat.le_trans (by decide) hminimum)
  obtain ⟨tail, htail⟩ := exists_bigEndian_eq
    (n := (flags :: content).length - helloMinLength) (by
      simp only [maxFrameLength, helloMinLength] at hsize hminimum ⊢
      omega)
  have hbytes := eq_bigEndian_of_signedWord hword hdeclared
  rw [htail, List.take_succ_cons] at hbytes
  exact (List.cons.inj hbytes).1

/-- A letter whose bits are no flags is refused where the flags of the identifier are looked for. -/
theorem decodeHello_of_letter {front : List UInt8} (hfront : front.length = 4) {letter : UInt8}
    (hletter : hasFlag letter unknownMask = true) (rest : List UInt8) :
    ∃ fault, decodeHello (front ++ letter :: rest) = .error (.outOfSync fault) := by
  refine decodeHello_of_object fun _ _ => ?_
  have hdrop : (front ++ letter :: rest).drop 4 = letter :: rest := List.drop_left' hfront
  rw [hdrop]
  cases (front ++ letter :: rest).length - helloMinLength with
  | zero => exact ⟨.emptyObject, rfl⟩
  | succ size => exact ⟨.unknownFlags letter, if_pos hletter⟩

/-- The fourth character of the document of a payload or of a text is a letter whose bits are no
flags. -/
theorem exists_writeVerbose_eq {object : WireObject} (hobject : object.kind ≠ .node) :
    ∃ front letter rest, object.writeVerbose = front ++ letter :: rest ∧ front.length = 3 ∧
      hasFlag letter unknownMask = true := by
  have hbytes (front more : List Char) (letter : Char) :
      utf8 (String.ofList (front ++ letter :: more)) = utf8 (String.ofList front) ++
        (utf8 (String.ofList [letter]) ++ utf8 (String.ofList more)) := by
    rw [← utf8_ofList_append, ← utf8_ofList_append, List.singleton_append]
  cases object with
  | node ident => exact absurd rfl hobject
  | share payload =>
    obtain ⟨more, hmore⟩ : ∃ more, (WireObject.share payload).document.chars =
      ['\x7b', '"', 'S'] ++ 'h' :: more := ⟨_, rfl⟩
    rw [WireObject.writeVerbose, Json.render, hmore, hbytes]
    exact ⟨_, 0x68, _, rfl, by decide, by decide⟩
  | text content =>
    obtain ⟨more, hmore⟩ : ∃ more, (WireObject.text content).document.chars =
      ['\x7b', '"', 'T'] ++ 'e' :: more := ⟨_, rfl⟩
    rw [WireObject.writeVerbose, Json.render, hmore, hbytes]
    exact ⟨_, 0x65, _, rfl, by decide, by decide⟩

/-- No encoding of a payload or of a text is a greeting. -/
theorem decodeHello_encodeObjectBy {object : WireObject} (hobject : object.kind ≠ .node)
    (hsize : (encodeObjectBy deflate settings object).length ≤ maxFrameLength) :
    ∃ fault, decodeHello (encodeObjectBy deflate settings object) = .error (.outOfSync fault) := by
  by_cases hflags : flagsOf settings = 0
  · -- no flag: the document follows as it is
    have hsettings : settings.compact = false ∧ settings.compress = false := by
      rw [flagsOf] at hflags
      revert hflags
      cases settings.compact <;> cases settings.compress <;> decide
    obtain ⟨front, letter, rest, hdocument, hfront, hletter⟩ := exists_writeVerbose_eq hobject
    have hencoding : encodeObjectBy deflate settings object = (0 :: front) ++ letter :: rest := by
      simp [encodeObjectBy, serialize, hflags, hsettings, hdocument]
    rw [hencoding]
    exact decodeHello_of_letter (by rw [List.length_cons, hfront]) hletter rest
  · exact decodeHello_of_flags hflags hsize

/-! ## Greetings are no messages -/

/-- Bytes with a control character among them that is no white space are no document. -/
theorem readVerbose_of_control {bytes : List UInt8} {byte : UInt8} (hmem : byte ∈ bytes)
    (hcontrol : byte.toNat < 9) : WireObject.readVerbose bytes = none := by
  cases hread : WireObject.readVerbose bytes with
  | none => rfl
  | some object =>
    simp only [WireObject.readVerbose, Option.bind_eq_bind, Option.bind_eq_some_iff] at hread
    obtain ⟨text, htext, document, hdocument, -⟩ := hread
    obtain ⟨row, hlex, -⟩ := Option.bind_eq_some_iff.1 hdocument
    rw [← utf8_of_ofUtf8? htext] at hmem
    obtain ⟨c, hc, hcode⟩ := exists_mem_of_mem_utf8 hmem (by omega)
    rcases (Json.lex_eq_some_iff.1 hlex).printable c hc with hspace | hprintable
    · have hc : c = ' ' ∨ c = '\n' ∨ c = '\t' ∨ c = '\r' := by
        simpa [Json.isSpace, or_assoc] using hspace
      have hcode : 9 ≤ c.toNat := by rcases hc with rfl | rfl | rfl | rfl <;> decide
      omega
    · omega

/-- No greeting within the limit is a message. -/
theorem decodeMessage_of_greeting {ident nonce : List UInt8} {flags : UInt8} (hmem : flags ∈ ident)
    (hflags : flags.toNat < 9) (hsize : ident.length < 2 ^ 24) :
    decodeMessage (bigEndian 4 ident.length ++ ident ++ nonce) =
      .error (.outOfSync .verboseObject) := by
  obtain ⟨tail, htail⟩ := exists_bigEndian_eq hsize
  have hread : WireObject.readVerbose (tail ++ ident ++ nonce) = none :=
    readVerbose_of_control (by simp [hmem]) hflags
  have hplain : ({ compact := false, compress := false } : Settings).compress = false := rfl
  have hobject := decodeObject_plain hplain (tail ++ ident ++ nonce)
  rw [readObject, hread] at hobject
  rw [htail, List.cons_append, List.cons_append]
  exact decodeMessage_of_fault hobject

/-- Whatever a sender's settings are and whatever it deflates with, a greeting within the limit is no
message, and neither a payload nor the request to close is a greeting. -/
theorem greetings_apart_from_messages (deflate : List UInt8 → List UInt8) (settings : Settings) :
    (∀ greeting : Greeting,
      helloMinLength + (encodeObjectBy deflate settings (.node greeting.node)).length ≤
        maxFrameLength →
      ∃ body, encodeHelloBy deflate settings greeting = .ok body ∧
        body.length =
          helloMinLength + (encodeObjectBy deflate settings (.node greeting.node)).length ∧
        decodeMessage body = .error (.outOfSync .verboseObject)) ∧
    (∀ payload : Payload, (encodeShareBy deflate settings payload).length ≤ maxFrameLength →
      ∃ fault, decodeHello (encodeShareBy deflate settings payload) = .error (.outOfSync fault)) ∧
    ((encodeCloseBy deflate settings).length ≤ maxFrameLength →
      ∃ fault, decodeHello (encodeCloseBy deflate settings) = .error (.outOfSync fault)) := by
  refine ⟨fun greeting hsize => ?_, fun payload hsize => ?_, fun hsize => ?_⟩
  · have hflags : (flagsOf settings).toNat < 9 := by
      rw [flagsOf]
      cases settings.compact <;> cases settings.compress <;> decide
    have hshort : (encodeObjectBy deflate settings (.node greeting.node)).length < 2 ^ 24 := by
      simp only [helloMinLength, maxFrameLength] at hsize
      omega
    refine ⟨_, if_pos (Nat.lt_trans hshort (by decide)), ?_,
      decodeMessage_of_greeting List.mem_cons_self hflags hshort⟩
    simp only [List.length_append, length_bigEndian, signedBytes, helloMinLength]
    omega
  · have hshare : (WireObject.share payload).kind ≠ .node := by simp [WireObject.kind]
    exact decodeHello_encodeObjectBy hshare hsize
  · have hclose : (WireObject.text closeSentinel).kind ≠ .node := by simp [WireObject.kind]
    exact decodeHello_encodeObjectBy hclose hsize

/-- The greeting of a node without a name, deflated to nothing, is no message; the verbose form of an
empty payload is no greeting, and neither is the compact request to close. -/
theorem nameless_greeting_apart :
    (∃ body, encodeHelloBy (fun _ => []) { compact := true, compress := true } ⟨⟨""⟩, 7⟩ =
        .ok body ∧ body = [0, 0, 0, 1, 3, 0, 0, 0, 7] ∧
      decodeMessage body = .error (.outOfSync .verboseObject)) ∧
    (∃ fault, decodeHello (encodeShareBy Deflate.deflate { compact := false, compress := false }
      .empty) = .error (.outOfSync fault)) ∧
    (∃ fault, decodeHello (encodeCloseBy Deflate.deflate { compact := true, compress := false }) =
      .error (.outOfSync fault)) := by
  have hdeflated := greetings_apart_from_messages (fun _ => []) { compact := true, compress := true }
  have hverbose := greetings_apart_from_messages Deflate.deflate
    { compact := false, compress := false }
  have hcompact := greetings_apart_from_messages Deflate.deflate
    { compact := true, compress := false }
  obtain ⟨body, hbody, -, hmessage⟩ := hdeflated.1 ⟨⟨""⟩, 7⟩ (by decide)
  refine ⟨⟨body, hbody, ?_, hmessage⟩, hverbose.2.1 .empty (by decide +kernel),
    hcompact.2.2 (by decide +kernel)⟩
  exact (Except.ok.inj hbody).symm

end RegionGossip.Wire
