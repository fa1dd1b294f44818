import RegionGossip.Deflate.Stored
import RegionGossip.Error
import RegionGossip.Wire.Compact
import RegionGossip.Wire.Verbose

/-!
# Encoded objects

What travels in a frame is an object: the identifier of a node, a payload, or a text. Its encoding
begins with a byte of flags that records how the rest was written, so a receiver undoes exactly what
the sender did, whatever its own settings are.
-/

namespace RegionGossip.Wire

/-- What an encoded object holds. -/
inductive WireObject
  | node (ident : NodeId)
  | share (payload : Payload)
  | text (content : String)

namespace WireObject

/-- The kind of an object. -/
def kind : WireObject → ObjectKind
  | .node _ => .node
  | .share _ => .share
  | .text _ => .text

/-- The compact form of an object: a tag and the content. -/
def writeCompact : WireObject → List UInt8
  | .node ident => Compact.tag 0 ++ Compact.writeText ident.name
  | .share payload => Compact.tag 1 ++ Compact.writePayload payload
  | .text content => Compact.tag 2 ++ Compact.writeText content

/-- The object at the front of some bytes; what follows it is not looked at. -/
def readCompact (bytes : List UInt8) : Option WireObject := do
  let (shape, rest) ← readWord 4 bytes
  match shape with
  | 0 => return .node ⟨(← Compact.readText rest).1⟩
  | 1 => return .share (← Compact.readPayload rest).1
  | 2 => return .text (← Compact.readText rest).1
  | _ => none

/-- The document of an object: its content under the name of its kind. -/
def document : WireObject → Json
  | .node ident => Verbose.tagged "Node" (Json.str ident.name)
  | .share payload => Verbose.tagged "Share" (Verbose.payloadDocument payload)
  | .text content => Verbose.tagged "Text" (Json.str content)

/-- The verbose form of an object. -/
def writeVerbose (object : WireObject) : List UInt8 := utf8 object.document.render

/-- The object of a document. -/
def ofDocument : Json.Reader WireObject
  | _ + 1, .object [(some "Node", .text (some name))] => some (.node ⟨name⟩)
  | depth + 1, .object [(some "Share", content)] =>
    (Verbose.readPayload depth content).map .share
  | _ + 1, .object [(some "Text", .text (some content))] => some (.text content)
  | _, _ => none

/-- The object that a text describes. -/
def readVerbose (bytes : List UInt8) : Option WireObject := do
  let text ← ofUtf8? bytes
  let document ← Json.parse? text
  Json.readDocument ofDocument document

end WireObject

/-- The flag of the compact form. -/
def compactFlag : UInt8 := 1

/-- The flag of deflated content. -/
def deflatedFlag : UInt8 := 2

/-- The flags that settings ask for. -/
def flagsOf (settings : Settings) : UInt8 :=
  (if settings.compact then compactFlag else 0) ||| (if settings.compress then deflatedFlag else 0)

/-- Whether a byte has a flag. -/
def hasFlag (flags flag : UInt8) : Bool := flags &&& flag != 0

/-- An object before it is compressed. -/
def serialize (settings : Settings) (object : WireObject) : List UInt8 :=
  if settings.compact then object.writeCompact else object.writeVerbose

/-- The encoding of an object, with a given way to deflate its content. -/
def encodeObjectBy (deflate : List UInt8 → List UInt8) (settings : Settings)
    (object : WireObject) : List UInt8 :=
  let content := serialize settings object
  flagsOf settings :: (if settings.compress then deflate content else content)

/-- The encoding of an object. -/
def encodeObject (settings : Settings) (object : WireObject) : List UInt8 :=
  encodeObjectBy Deflate.deflate settings object

/-- How much of a deflated content is read; what comes after that is never seen. -/
def inflatedLimit : Nat := 4 * maxFrameLength

/-- The content of deflated bytes, as far as it is read. -/
def inflateContent (bytes : List UInt8) : Option (List UInt8) :=
  Deflate.inflateFront? inflatedLimit bytes

/-- The content of an encoding whose flags are known, with a given way to undo compression. -/
def unpackBy (inflate : List UInt8 → Option (List UInt8)) (flags : UInt8) (bytes : List UInt8) :
    Except MeshError (List UInt8) :=
  if hasFlag flags deflatedFlag then
    match inflate bytes with
    | some content => .ok content
    | none => .error (.outOfSync .deflated)
  else .ok bytes

/-- The content of an encoding whose flags are known, for those who do without its object. -/
def unpack (flags : UInt8) (bytes : List UInt8) : Except MeshError (List UInt8) :=
  unpackBy inflateContent flags bytes

/-- The object of content in one of the two forms. -/
def readObject (compact : Bool) (content : List UInt8) : Except MeshError WireObject :=
  if compact then
    match WireObject.readCompact content with
    | some object => .ok object
    | none => .error (.outOfSync .compactObject)
  else
    match WireObject.readVerbose content with
    | some object => .ok object
    | none => .error (.outOfSync .verboseObject)

/-- The object of an encoding, with a given way to undo compression. -/
def decodeObjectBy (inflate : List UInt8 → Option (List UInt8)) :
    List UInt8 → Except MeshError WireObject
  | [] => .error (.outOfSync .emptyObject)
  | flags :: bytes =>
    if hasFlag flags ((compactFlag ||| deflatedFlag) ^^^ 0xff) then
      .error (.outOfSync (.unknownFlags flags))
    else do readObject (hasFlag flags compactFlag) (← unpackBy inflate flags bytes)

/-- The object of an encoding. -/
def decodeObject (encoded : List UInt8) : Except MeshError WireObject :=
  decodeObjectBy inflateContent encoded

end RegionGossip.Wire
