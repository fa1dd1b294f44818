import RegionGossip.Wire.Object

/-!
# Greetings and messages

Both ends of a connection begin with a greeting that names the node and carries a nonce: the length
of the encoded identifier, the identifier, the nonce. After that every frame is a message, which is
either shared state or the agreed text that asks the other end to close the link.
-/

namespace RegionGossip.Wire

/-- The text that asks the other end to close the link. -/
def closeSentinel : String := "regionmesh:close-link"

/-- A message on an established link. -/
inductive Message
  | share (payload : Payload)
  | close

/-- The encoding of shared state, with a given way to deflate. -/
def encodeShareBy (deflate : List UInt8 → List UInt8) (settings : Settings)
    (payload : Payload) : List UInt8 :=
  encodeObjectBy deflate settings (.share payload)

/-- The encoding of shared state. -/
def encodeShare (settings : Settings) (payload : Payload) : List UInt8 :=
  encodeShareBy Deflate.deflate settings payload

/-- The encoding of the request to close, with a given way to deflate. -/
def encodeCloseBy (deflate : List UInt8 → List UInt8) (settings : Settings) : List UInt8 :=
  encodeObjectBy deflate settings (.text closeSentinel)

/-- The encoding of the request to close. -/
def encodeClose (settings : Settings) : List UInt8 := encodeCloseBy Deflate.deflate settings

/-- The message of a frame. -/
def decodeMessage (body : List UInt8) : Except MeshError Message := do
  match ← decodeObject body with
  | .share payload => .ok (.share payload)
  | .text content =>
    if content = closeSentinel then .ok .close
    else .error (.outOfSync (.unexpectedText content))
  | .node _ => .error (.outOfSync (.messageObject .node))

/-- What a greeting says. -/
structure Greeting where
  node : NodeId
  nonce : Int32

/-- Four bytes, most significant first, as a signed number. -/
def signedWord (bytes : List UInt8) : Int :=
  (Int32.ofNat (ofBigEndian bytes)).toInt

/-- A signed number as four bytes, most significant first. -/
def signedBytes (number : Int32) : List UInt8 := bigEndian 4 number.toUInt32.toNat

/-- The body of a greeting, with a given way to deflate. -/
def encodeHelloBy (deflate : List UInt8 → List UInt8) (settings : Settings) (greeting : Greeting) :
    Except MeshError (List UInt8) :=
  let ident := encodeObjectBy deflate settings (.node greeting.node)
  if ident.length < 0x80000000 then
    .ok (bigEndian 4 ident.length ++ ident ++ signedBytes greeting.nonce)
  else .error (.encode .identTooLong)

/-- The body of a greeting. -/
def encodeHello (settings : Settings) (greeting : Greeting) : Except MeshError (List UInt8) :=
  encodeHelloBy Deflate.deflate settings greeting

/-- The greeting of a body, with a given way to undo compression. The declared length must be the
length of all that stands between it and the nonce. -/
def decodeHelloBy (inflate : List UInt8 → Option (List UInt8)) (body : List UInt8) :
    Except MeshError Greeting :=
  let size := body.length
  if size < helloMinLength then .error (.outOfSync (.shortHello size))
  else
    let declared := signedWord (body.take 4)
    if declared = (size : Int) - helloMinLength then do
      let rest := body.drop 4
      match ← decodeObjectBy inflate (rest.take (size - helloMinLength)) with
      | .node ident =>
        .ok ⟨ident, Int32.ofInt (signedWord (rest.drop (size - helloMinLength)))⟩
      | object => .error (.outOfSync (.helloObject object.kind))
    else .error (.outOfSync (.helloLength declared size))

/-- The greeting of a body. -/
def decodeHello (body : List UInt8) : Except MeshError Greeting :=
  decodeHelloBy inflateContent body

end RegionGossip.Wire
