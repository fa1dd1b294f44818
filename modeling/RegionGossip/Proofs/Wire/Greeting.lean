import RegionGossip.Proofs.Wire.Apart

/-!
# A greeting is read exactly where one is laid out

A body is a greeting when it is a length, an encoded identifier of that length, and a nonce, with
nothing between them and nothing after them. A receiver takes exactly these bodies for greetings and
is out of step after any other. It looks up positions that depend on a length which the other end
chose; with every position checked it gives the same answer, so none of them is outside of the body.
-/

namespace RegionGossip.Wire

variable {inflate : List UInt8 → Option (List UInt8)} {deflate : List UInt8 → List UInt8}
  {settings : Settings} {object : WireObject} {encoded word nonce : List UInt8} {greeting : Greeting}

/-! ## Encoded objects -/

/-- Some bytes are an encoding of an object: flags and content that is written as they say. Of content
that was deflated only what is given by inflating is looked at. -/
inductive Encodes (inflate : List UInt8 → Option (List UInt8)) (object : WireObject) :
    List UInt8 → Prop
  /-- The content stands behind the flags as it is. -/
  | plain {settings : Settings} {content : List UInt8} : settings.compress = false →
    readObject settings.compact content = .ok object →
    Encodes inflate object (flagsOf settings :: content)
  /-- The content was deflated. -/
  | deflated {settings : Settings} {bytes content : List UInt8} : settings.compress = true →
    inflate bytes = some content → readObject settings.compact content = .ok object →
    Encodes inflate object (flagsOf settings :: bytes)

/-- Flags without an unknown bit are those of some settings. -/
theorem exists_flagsOf {flags : UInt8} (hknown : hasFlag flags unknownMask = false) :
    ∃ settings : Settings, flags = flagsOf settings := by
  have hall : ∀ flags : Fin 256, hasFlag ⟨⟨flags⟩⟩ unknownMask = false →
      ⟨⟨flags⟩⟩ = flagsOf
        { compact := hasFlag ⟨⟨flags⟩⟩ compactFlag, compress := hasFlag ⟨⟨flags⟩⟩ deflatedFlag } := by
    decide +kernel
  exact ⟨_, hall flags.toFin hknown⟩

/-- What is no content of an object is a fault in the stream. -/
theorem readObject_cases (compact : Bool) (content : List UInt8) :
    (∃ object, readObject compact content = .ok object) ∨
      ∃ fault, readObject compact content = .error (.outOfSync fault) := by
  rw [readObject]
  cases compact with
  | true => cases WireObject.readCompact content <;> simp
  | false => cases WireObject.readVerbose content <;> simp

/-- Any bytes are an encoding of the object that is decoded from them, or a fault in the stream. -/
theorem decodeObjectBy_cases (inflate : List UInt8 → Option (List UInt8)) (encoded : List UInt8) :
    (∃ object, Encodes inflate object encoded ∧ decodeObjectBy inflate encoded = .ok object) ∨
      ∃ fault, decodeObjectBy inflate encoded = .error (.outOfSync fault) := by
  cases encoded with
  | nil => exact .inr ⟨_, rfl⟩
  | cons flags bytes =>
    cases hknown : hasFlag flags unknownMask with
    | true => exact .inr ⟨.unknownFlags flags, by rw [decodeObjectBy, if_pos (by exact hknown)]⟩
    | false =>
      obtain ⟨settings, rfl⟩ := exists_flagsOf hknown
      cases hcompress : settings.compress with
      | false =>
        rw [decodeObjectBy_plain hcompress]
        rcases readObject_cases settings.compact bytes with ⟨object, hread⟩ | hfault
        · exact .inl ⟨object, .plain hcompress hread, hread⟩
        · exact .inr hfault
      | true =>
        rw [decodeObjectBy_deflated hcompress]
        cases hinflate : inflate bytes with
        | none => exact .inr ⟨_, rfl⟩
        | some content =>
          rcases readObject_cases settings.compact content with ⟨object, hread⟩ | hfault
          · exact .inl ⟨object, .deflated hcompress hinflate hread, hread⟩
          · exact .inr hfault

/-- An object is decoded from exactly its encodings, under all flags that are known. -/
theorem decodeObjectBy_eq_ok_iff :
    decodeObjectBy inflate encoded = .ok object ↔ Encodes inflate object encoded := by
  constructor
  · intro hobject
    rcases decodeObjectBy_cases inflate encoded with ⟨other, hencodes, hother⟩ | ⟨fault, hfault⟩
    · rw [hobject] at hother
      rwa [Except.ok.inj hother]
    · rw [hobject] at hfault
      contradiction
  · rintro (⟨hplain, hread⟩ | ⟨hdeflated, hinflate, hread⟩)
    · rw [decodeObjectBy_plain hplain, hread]
    · rw [decodeObjectBy_deflated hdeflated, hinflate]
      exact hread

/-! ## Signed words -/

/-- A nonce takes four bytes. -/
theorem length_signedBytes (number : Int32) : (signedBytes number).length = 4 := length_bigEndian ..

/-- A nonce is read back from its bytes. -/
theorem signedWord_signedBytes (number : Int32) : signedWord (signedBytes number) = number.toInt := by
  have hread : ofBigEndian (signedBytes number) = number.toUInt32.toNat := by
    rw [signedBytes, ofBigEndian, bigEndian, List.reverse_reverse]
    exact ofLittleEndian_littleEndian number.toUInt32.toNat_lt
  show (Int32.ofUInt32 (UInt32.ofNat (ofBigEndian (signedBytes number)))).toInt = number.toInt
  rw [hread, UInt32.ofNat_toNat]

/-- Four bytes are those of the number that they stand for. -/
theorem signedBytes_signedWord (hword : word.length = 4) :
    signedBytes (Int32.ofInt (signedWord word)) = word := by
  have hbound : ofBigEndian word < 2 ^ 32 := ofBigEndian_lt hword
  have hvalue : (Int32.ofInt (signedWord word)).toUInt32.toNat = ofBigEndian word := by
    rw [signedWord, Int32.ofInt_toInt]
    exact Nat.mod_eq_of_lt hbound
  rw [signedBytes, hvalue, bigEndian_ofBigEndian hword]

/-! ## The layout of a greeting -/

/-- A body is laid out as a greeting: the length of an encoded identifier, the identifier, and the
nonce. -/
def Greets (inflate : List UInt8 → Option (List UInt8)) (body : List UInt8) (greeting : Greeting) :
    Prop :=
  ∃ encoded, Encodes inflate (.node greeting.node) encoded ∧ encoded.length < 2 ^ 31 ∧
    body = bigEndian 4 encoded.length ++ (encoded ++ signedBytes greeting.nonce)

/-- The greeting that an object and the nonce after it make. -/
def greetingOf (nonce : List UInt8) : WireObject → Except MeshError Greeting
  | .node ident => .ok ⟨ident, Int32.ofInt (signedWord nonce)⟩
  | object => .error (.outOfSync (.helloObject object.kind))

/-- A body that is long enough is a word, some bytes, and another word. -/
theorem exists_layout {body : List UInt8} (hlong : helloMinLength ≤ body.length) :
    ∃ word encoded nonce, word.length = 4 ∧ nonce.length = 4 ∧ body = word ++ (encoded ++ nonce) := by
  rw [helloMinLength] at hlong
  refine ⟨body.take 4, (body.drop 4).take (body.length - 8), (body.drop 4).drop (body.length - 8),
    List.length_take_of_le (by omega), ?_, ?_⟩
  · rw [List.length_drop, List.length_drop]
    omega
  · rw [List.take_append_drop, List.take_append_drop]

/-- A body is as long as what it is laid out of. -/
theorem length_layout (hword : word.length = 4) (hnonce : nonce.length = 4)
    (encoded : List UInt8) :
    (word ++ (encoded ++ nonce)).length = helloMinLength + encoded.length := by
  rw [List.length_append, List.length_append, hword, hnonce, helloMinLength]
  omega

/-- A body is read by its parts. -/
theorem decodeHelloBy_layout (hword : word.length = 4) (hnonce : nonce.length = 4)
    (encoded : List UInt8) :
    decodeHelloBy inflate (word ++ (encoded ++ nonce)) =
      if signedWord word = encoded.length then decodeObjectBy inflate encoded >>= greetingOf nonce
      else .error (.outOfSync
        (.helloLength (signedWord word) (helloMinLength + encoded.length))) := by
  have hsize := length_layout hword hnonce encoded
  have hroom : ((helloMinLength + encoded.length : Nat) : Int) - (helloMinLength : Nat) =
      encoded.length := by omega
  rw [decodeHelloBy]
  simp only [hsize, List.take_left' hword, List.drop_left' hword, hroom, Nat.add_sub_cancel_left,
    List.take_left, List.drop_left]
  rw [if_neg (by omega)]
  split
  · rfl
  · rfl

/-- Any body is laid out as the greeting that is read from it, or it is a fault in the stream. -/
theorem decodeHelloBy_cases (inflate : List UInt8 → Option (List UInt8)) (body : List UInt8) :
    (∃ greeting, Greets inflate body greeting ∧ decodeHelloBy inflate body = .ok greeting) ∨
      ∃ fault, decodeHelloBy inflate body = .error (.outOfSync fault) := by
  rcases Nat.lt_or_ge body.length helloMinLength with hshort | hlong
  · exact .inr ⟨_, by rw [decodeHelloBy, if_pos hshort]⟩
  obtain ⟨word, encoded, nonce, hword, hnonce, rfl⟩ := exists_layout hlong
  rw [decodeHelloBy_layout hword hnonce]
  split
  case isFalse => exact .inr ⟨_, rfl⟩
  rename_i hdeclared
  rcases decodeObjectBy_cases inflate encoded with ⟨object, hencodes, hobject⟩ | ⟨fault, hfault⟩
  · rw [hobject]
    cases object with
    | node ident =>
      have hbound : encoded.length < 2 ^ 31 := by
        have hlimit := Int32.toInt_lt (Int32.ofNat (ofBigEndian word))
        rw [signedWord] at hdeclared
        omega
      refine .inl ⟨⟨ident, Int32.ofInt (signedWord nonce)⟩, ⟨encoded, hencodes, hbound, ?_⟩, rfl⟩
      rw [← eq_bigEndian_of_signedWord hword hdeclared, signedBytes_signedWord hnonce]
    | share payload => exact .inr ⟨_, rfl⟩
    | text content => exact .inr ⟨_, rfl⟩
  · rw [hfault]
    exact .inr ⟨fault, rfl⟩

/-- A greeting is read from exactly the bodies that are laid out as it. -/
theorem decodeHelloBy_eq_ok_iff {body : List UInt8} :
    decodeHelloBy inflate body = .ok greeting ↔ Greets inflate body greeting := by
  constructor
  · intro hhello
    rcases decodeHelloBy_cases inflate body with ⟨other, hgreets, hother⟩ | ⟨fault, hfault⟩
    · rw [hhello] at hother
      rwa [Except.ok.inj hother]
    · rw [hhello] at hfault
      contradiction
  · rintro ⟨encoded, hencodes, hbound, rfl⟩
    rw [decodeHelloBy_layout (length_bigEndian ..) (length_signedBytes _),
      if_pos (signedWord_bigEndian hbound), decodeObjectBy_eq_ok_iff.2 hencodes]
    show greetingOf (signedBytes greeting.nonce) (.node greeting.node) = .ok greeting
    rw [greetingOf, signedWord_signedBytes, Int32.ofInt_toInt]

/-! ## Checked positions -/

/-- Four bytes from a position on, if all of them are there. -/
def word? (bytes : List UInt8) (start : Nat) : Option (List UInt8) := do
  return [← bytes[start]?, ← bytes[start + 1]?, ← bytes[start + 2]?, ← bytes[start + 3]?]

/-- The bytes of a range, if it is one and ends within them. -/
def range? (bytes : List UInt8) (start stop : Nat) : Option (List UInt8) :=
  if start ≤ stop ∧ stop ≤ bytes.length then some ((bytes.drop start).take (stop - start)) else none

/-- A difference, if it is not below zero. -/
def difference? (one two : Nat) : Option Nat := if two ≤ one then some (one - two) else none

/-- The greeting of a body, by position: the length from its front, the identifier from the range that
this length gives, and the nonce from behind it. There is no answer at all if a position is outside of
the body or a difference is below zero. -/
def readHelloBy? (inflate : List UInt8 → Option (List UInt8)) (body : List UInt8) :
    Option (Except MeshError Greeting) :=
  let size := body.length
  if size < helloMinLength then some (.error (.outOfSync (.shortHello size)))
  else do
    let declared := signedWord (← word? body 0)
    let fits ← if declared < 0 then some false
      else (difference? size helloMinLength).map fun room => declared.toNat == room
    if fits then
      let stop := 4 + declared.toNat
      match decodeObjectBy inflate (← range? body 4 stop) with
      | .ok (.node ident) => return .ok ⟨ident, Int32.ofInt (signedWord (← word? body stop))⟩
      | .ok object => return .error (.outOfSync (.helloObject object.kind))
      | .error error => return .error error
    else return .error (.outOfSync (.helloLength declared size))

/-- Four bytes are found where they stand. -/
theorem word?_append {front : List UInt8} {start : Nat} (hstart : front.length = start)
    (hword : word.length = 4) (rest : List UInt8) :
    word? (front ++ (word ++ rest)) start = some word := by
  subst hstart
  match word, hword with
  | [a, b, c, d], _ => simp [word?]

/-- A part is found in the range in which it stands. -/
theorem range?_append {front : List UInt8} {start : Nat} (hstart : front.length = start)
    (part rest : List UInt8) :
    range? (front ++ (part ++ rest)) start (start + part.length) = some part := by
  have hwithin : start + part.length ≤ (front ++ (part ++ rest)).length := by
    rw [List.length_append, List.length_append]
    omega
  rw [range?, if_pos ⟨Nat.le_add_right .., hwithin⟩, List.drop_left' hstart,
    Nat.add_sub_cancel_left, List.take_left]

/-- The parts of a body are found at their positions. -/
theorem found_layout (hword : word.length = 4) (hnonce : nonce.length = 4) (encoded : List UInt8) :
    word? (word ++ (encoded ++ nonce)) 0 = some word ∧
      range? (word ++ (encoded ++ nonce)) 4 (4 + encoded.length) = some encoded ∧
      word? (word ++ (encoded ++ nonce)) (4 + encoded.length) = some nonce := by
  have hlength := word?_append List.length_nil hword (encoded ++ nonce)
  have hfront : (word ++ encoded).length = 4 + encoded.length := by
    rw [List.length_append, hword]
  have hbehind := word?_append hfront hnonce []
  rw [List.nil_append] at hlength
  rw [List.append_nil, List.append_assoc] at hbehind
  exact ⟨hlength, range?_append hword encoded nonce, hbehind⟩

/-- With all positions checked there is an answer, and it is the same. -/
theorem readHelloBy?_eq (inflate : List UInt8 → Option (List UInt8)) (body : List UInt8) :
    readHelloBy? inflate body = some (decodeHelloBy inflate body) := by
  rcases Nat.lt_or_ge body.length helloMinLength with hshort | hlong
  · rw [readHelloBy?, decodeHelloBy, if_pos hshort, if_pos hshort]
  obtain ⟨word, encoded, nonce, hword, hnonce, rfl⟩ := exists_layout hlong
  obtain ⟨hlength, hident, hbehind⟩ := found_layout hword hnonce encoded
  have hroom : difference? (helloMinLength + encoded.length) helloMinLength =
      some encoded.length := by
    rw [difference?, if_pos (Nat.le_add_right ..), Nat.add_sub_cancel_left]
  rw [decodeHelloBy_layout hword hnonce, readHelloBy?]
  simp only [length_layout hword hnonce, hlength, hroom, Option.bind_eq_bind, Option.bind_some,
    Option.map_some]
  rw [if_neg (by omega)]
  by_cases hdeclared : signedWord word = encoded.length
  · have hstop : (signedWord word).toNat = encoded.length := by omega
    rw [if_pos hdeclared, if_neg (by omega), hstop]
    simp only [Option.bind_some, BEq.rfl, if_true, hident]
    cases decodeObjectBy inflate encoded with
    | error error => rfl
    | ok object =>
      cases object with
      | node ident => simp only [hbehind]; rfl
      | share payload => rfl
      | text content => rfl
  · rw [if_neg hdeclared]
    split
    · rfl
    · have hother : ((signedWord word).toNat == encoded.length) = false := by
        rw [beq_eq_false_iff_ne]
        omega
      rw [hother]
      rfl

/-! ## Greetings that are sent -/

/-- The length of a name fits a word where the content of its encoding is within limits. -/
theorem countsText_of_length {ident : NodeId} (hcompact : settings.compact = true)
    (hlimit : (serialize settings (.node ident)).length < wordRange) :
    Value.countsText ident.name = true := by
  have hlength : (utf8 ident.name).length ≤ (serialize settings (.node ident)).length := by
    rw [serialize, if_pos hcompact, WireObject.writeCompact, Compact.writeText, List.length_append,
      List.length_append]
    omega
  exact decide_eq_true (Nat.lt_of_le_of_lt hlength hlimit)

/-- An identifier is read in either form as it is spelled. -/
theorem readObject_node {ident : NodeId}
    (hlimit : (serialize settings (.node ident)).length < wordRange) :
    readObject settings.compact (serialize settings (.node ident)) = .ok (.node ident) := by
  cases hcompact : settings.compact with
  | true =>
    have hcounts := countsText_of_length hcompact hlimit
    rw [serialize, hcompact, if_pos rfl, readObject, if_pos rfl,
      WireObject.readCompact_node hcounts]
  | false =>
    rw [serialize, hcompact, readObject]
    simp [WireObject.readVerbose_node]

/-- What a sender makes of a greeting is laid out as this greeting. -/
theorem greets_of_encodeHelloBy (hreturns : Returns inflate deflate) {body : List UInt8}
    (hbody : encodeHelloBy deflate settings greeting = .ok body)
    (hsize : settings.compress = true →
      (serialize settings (.node greeting.node)).length ≤ inflatedLimit) :
    Greets inflate body greeting := by
  rw [encodeHelloBy] at hbody
  split at hbody
  case isFalse => contradiction
  rename_i hbound
  have hlimit : (serialize settings (.node greeting.node)).length < wordRange := by
    cases hcompress : settings.compress with
    | true => exact Nat.lt_of_le_of_lt (hsize hcompress) (by decide)
    | false =>
      rw [encodeObjectBy, hcompress] at hbound
      exact Nat.lt_trans (Nat.lt_of_succ_lt hbound) (by decide)
  have hobject := decodeObjectBy_encodeObjectBy hreturns hsize
  rw [readObject_node hlimit] at hobject
  refine ⟨_, decodeObjectBy_eq_ok_iff.1 hobject, hbound, ?_⟩
  rw [← Except.ok.inj hbody, List.append_assoc]

/-- A receiver looks up no position outside of a body, in whatever way it undoes compression. It takes
a body for a greeting exactly when it is laid out as one: a length, a known encoding of an identifier
that is as long as this says, and a nonce. Any other body tells it that the stream is out of step. So
a greeting that could be written arrives with its nonce and with its identifier as it is spelled, in
either form, and also deflated if inflating gives back what was deflated. -/
theorem greetings_read_exactly (inflate : List UInt8 → Option (List UInt8)) :
    (∀ body, readHelloBy? inflate body = some (decodeHelloBy inflate body)) ∧
    (∀ body greeting, decodeHelloBy inflate body = .ok greeting ↔ Greets inflate body greeting) ∧
    (∀ body, (∀ greeting, ¬ Greets inflate body greeting) →
      ∃ fault, decodeHelloBy inflate body = .error (.outOfSync fault)) ∧
    ∀ (deflate : List UInt8 → List UInt8) (settings : Settings) (greeting : Greeting)
      (body : List UInt8), Returns inflate deflate →
      encodeHelloBy deflate settings greeting = .ok body →
      (settings.compress = true →
        (serialize settings (.node greeting.node)).length ≤ inflatedLimit) →
      decodeHelloBy inflate body = .ok greeting := by
  refine ⟨readHelloBy?_eq inflate, fun _ _ => decodeHelloBy_eq_ok_iff, fun body hnone => ?_,
    fun _ _ _ _ hreturns hbody hsize => ?_⟩
  · rcases decodeHelloBy_cases inflate body with ⟨greeting, hgreets, -⟩ | hfault
    · exact absurd hgreets (hnone greeting)
    · exact hfault
  · exact decodeHelloBy_eq_ok_iff.2 (greets_of_encodeHelloBy hreturns hbody hsize)

/-- A name with a quotation mark and capitals arrives deflated, with a nonce below zero; a body whose
length is below zero is no greeting. -/
theorem quoted_greeting_arrives :
    (∃ body, encodeHelloBy Deflate.deflate { compact := false, compress := true }
        ⟨⟨"Nöde \"A\""⟩, -2⟩ = .ok body ∧ decodeHello body = .ok ⟨⟨"Nöde \"A\""⟩, -2⟩) ∧
    (∀ greeting, ¬ Greets inflateContent [255, 255, 255, 255, 0, 0, 0, 7] greeting) ∧
    ∃ fault, decodeHello [255, 255, 255, 255, 0, 0, 0, 7] = .error (.outOfSync fault) := by
  obtain ⟨-, hexact, hothers, harrives⟩ := greetings_read_exactly inflateContent
  have hnegative : decodeHello [255, 255, 255, 255, 0, 0, 0, 7] =
      .error (.outOfSync (.helloLength (-1) 8)) := rfl
  have hnone : ∀ greeting, ¬ Greets inflateContent [255, 255, 255, 255, 0, 0, 0, 7] greeting := by
    intro greeting hgreets
    have hhello := (hexact _ _).2 hgreets
    rw [← decodeHello, hnegative] at hhello
    contradiction
  refine ⟨⟨_, rfl, ?_⟩, hnone, hothers _ hnone⟩
  exact harrives _ { compact := false, compress := true } _ _
    (returns_inflateContent Deflate.undone_deflate) rfl fun _ => by decide +kernel

end RegionGossip.Wire
