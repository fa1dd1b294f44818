import RegionGossip.Wire.Message

/-!
# Frames

A frame is the length of its body in four bytes, most significant first, and the body. A reader of a
stream waits while the stream may still bring what is missing; once the stream has ended, missing
bytes are an end-of-stream fault. A length that is not positive, or beyond the limit, is refused as
soon as it is there.
-/

namespace RegionGossip.Wire

/-- The bytes of a frame. -/
def frame (body : List UInt8) : List UInt8 := bigEndian 4 body.length ++ body

/-- The bytes of a frame, unless the body is over the limit. -/
def writeFrame (body : List UInt8) : Except MeshError (List UInt8) :=
  if maxFrameLength < body.length then .error (.encode (.frameTooLong body.length))
  else .ok (frame body)

/-- A stream after a body was written to it, and what became of the body. -/
def putFrame (stream body : List UInt8) : List UInt8 × Except MeshError Unit :=
  match writeFrame body with
  | .ok frame => (stream ++ frame, .ok ())
  | .error error => (stream, .error error)

/-- One body after the other is written to a stream. -/
def putFrames (stream : List UInt8) : List (List UInt8) →
    List UInt8 × List (Except MeshError Unit)
  | [] => (stream, [])
  | body :: rest =>
    let (longer, answer) := putFrame stream body
    let (final, answers) := putFrames longer rest
    (final, answer :: answers)

/-- What a reader finds at the front of a stream. -/
inductive FrameRead
  /-- The stream may still bring the rest of a frame. -/
  | waiting
  /-- A frame's body and what follows it. -/
  | body (content rest : List UInt8)
  /-- No frame can follow any more; some bytes were used up in finding out. -/
  | failed (error : MeshError) (rest : List UInt8)

/-- The frame at the front of the bytes that have arrived; `ended` tells that no more will come. -/
def readFrame (bytes : List UInt8) (ended : Bool) : FrameRead :=
  match takeBytes 4 bytes with
  | none => if ended then .failed (.io .endOfStream) [] else .waiting
  | some (word, rest) =>
    let length := signedWord word
    if length ≤ 0 then .failed (.outOfSync (.frameTooShort length)) rest
    else if (maxFrameLength : Int) < length then .failed (.outOfSync (.frameTooLong length)) rest
    else
      match takeBytes length.toNat rest with
      | some (content, rest) => .body content rest
      | none => if ended then .failed (.io .endOfStream) [] else .waiting

/-- What is read from a stream that has ended: the bodies of its whole frames, the bytes after the
last of them, and the fault at which reading stops, with what it leaves unread. -/
structure FrameRow where
  bodies : List (List UInt8)
  trailing : List UInt8
  fault : MeshError
  left : List UInt8

/-- Reads frames until one fails. Each frame takes at least four bytes. -/
def readFrames : (fuel : Nat) → List UInt8 → List (List UInt8) → FrameRow
  | 0, bytes, done => ⟨done.reverse, bytes, .io .endOfStream, bytes⟩
  | fuel + 1, bytes, done =>
    match readFrame bytes true with
    | .body content rest => readFrames fuel rest (content :: done)
    | .failed fault rest => ⟨done.reverse, bytes, fault, rest⟩
    | .waiting => ⟨done.reverse, bytes, .io .endOfStream, bytes⟩

/-- Everything that can be read from a stream that has ended. -/
def framesOf (bytes : List UInt8) : FrameRow := readFrames (bytes.length + 1) bytes []

end RegionGossip.Wire
