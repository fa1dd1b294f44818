import RegionGossip.Link.Nonce
import RegionGossip.Wire.Frame

/-!
# The exchange of greetings

On a fresh connection both ends write their greeting before they read the other one, so it does not
matter which of them dialed. The greeting of the other end is the first frame that it sends; anything
else in its place ends the connection.
-/

namespace RegionGossip

/-- The bytes that a node writes first. -/
def greetingFrame (settings : Settings) (own : Wire.Greeting) : Except MeshError (List UInt8) :=
  (Wire.encodeHello settings own).bind Wire.writeFrame

/-- What is known of the other end's greeting. -/
inductive GreetingRead
  | waiting
  /-- The greeting, and what came after it. -/
  | greeted (greeting : Wire.Greeting) (rest : List UInt8)
  | failed (error : MeshError)

/-- The greeting at the front of the bytes that have arrived; `ended` tells that no more will come. -/
def readGreeting (bytes : List UInt8) (ended : Bool) : GreetingRead :=
  match Wire.readFrame bytes ended with
  | .waiting => .waiting
  | .failed error _ => .failed error
  | .body content rest =>
    match Wire.decodeHello content with
    | .ok greeting => .greeted greeting rest
    | .error error => .failed error

end RegionGossip
