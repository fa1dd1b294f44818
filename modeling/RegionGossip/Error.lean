import RegionGossip.Ident
import RegionGossip.Settings
import RegionGossip.Text.Quoted
import RegionGossip.Text.Decimal

/-!
# What can go wrong between nodes

Every error of the protocol as its cause, with the wording in one place. A few causes have details
that come from elsewhere, such as the operating system; how those are worded is left to the one who
shows the message.
-/

namespace RegionGossip

/-- The life of the connection to one neighbour. -/
inductive LinkState
  | unconnected
  | handshaking
  | connected
  | terminating
  | terminated
  deriving DecidableEq, Repr, Inhabited

/-- The name of a link state. -/
def LinkState.name : LinkState → String
  | .unconnected => "Unconnected"
  | .handshaking => "Handshaking"
  | .connected => "Connected"
  | .terminating => "Terminating"
  | .terminated => "Terminated"

/-- What an encoded object holds. -/
inductive ObjectKind
  | node
  | share
  | text
  deriving DecidableEq, Repr

/-- The name of a kind of object. -/
def ObjectKind.name : ObjectKind → String
  | .node => "node identifier"
  | .share => "share data"
  | .text => "text"

/-- Faults of a connection. -/
inductive IoFault
  | endOfStream
  | addressInUse
  | addressNotAvailable
  | refused
  | broken
  deriving DecidableEq, Repr

/-- Details whose wording is not fixed here. -/
inductive Detail
  | compactObject
  | verboseObject
  | deflated
  | io (fault : IoFault)
  | settingsFile (path : String)
  | settingsText
  deriving DecidableEq, Repr

/-- A wording for the details. -/
def Detail.wording : Detail → String
  | .compactObject => "malformed binary object"
  | .verboseObject => "malformed JSON object"
  | .deflated => "corrupt deflate stream"
  | .io .endOfStream => "early end of stream"
  | .io .addressInUse => "address already in use"
  | .io .addressNotAvailable => "cannot assign requested address"
  | .io .refused => "connection refused"
  | .io .broken => "broken pipe"
  | .settingsFile path => path ++ ": no such file"
  | .settingsText => "malformed settings"

/-- Why a byte stream no longer lines up with messages. -/
inductive StreamFault
  | emptyObject
  | unknownFlags (flags : UInt8)
  | compactObject
  | verboseObject
  | deflated
  | shortHello (size : Nat)
  | helloLength (declared : Int) (size : Nat)
  | helloObject (kind : ObjectKind)
  | unexpectedText (content : String)
  | messageObject (kind : ObjectKind)
  | frameTooShort (length : Int)
  | frameTooLong (length : Int)
  | reported (message : String)
  deriving DecidableEq, Repr

/-- Why a message cannot be encoded. -/
inductive EncodeFault
  | frameTooLong (size : Nat)
  | identTooLong
  | reported (message : String)
  deriving DecidableEq, Repr

/-- What was asked for in a state that does not allow it. -/
inductive StateFault
  | managerStarted (node : String)
  | linkNotConnected (peer : String) (state : LinkState)
  | linkClosed (peer : String)
  | alreadyExecuting (node : String)
  | reported (message : String)
  deriving DecidableEq, Repr

/-- Why settings are refused. -/
inductive SettingsFault
  | dropFraction (value : Binary64)
  /-- A loss fraction out of bounds was met when a message was to be sent. -/
  | lossRate (value : Binary64)
  | unreadable (path : String)
  | malformed
  deriving DecidableEq, Repr

/-- An error of the neighbour protocol or of the execution loop. -/
inductive MeshError
  /-- The bytes of a connection make no sense; its link has to be torn down. -/
  | outOfSync (fault : StreamFault)
  /-- The connection itself failed. -/
  | io (fault : IoFault)
  | encode (fault : EncodeFault)
  | illegalState (fault : StateFault)
  | unknownNode (node : String)
  | mismatch (expected actual : String)
  | settings (fault : SettingsFault)
  /-- The computation of a round failed. -/
  | kernel (message : String)
  deriving DecidableEq, Repr

/-- The largest frame body. -/
def maxFrameLength : Nat := 16777216

/-- The smallest greeting: the length of an identifier and a nonce. -/
def helloMinLength : Nat := 8

/-- Two hexadecimal digits. -/
def byteText (byte : UInt8) : String :=
  String.ofList ['0', 'x', Nat.digitChar (byte.toNat / 16), Nat.digitChar (byte.toNat % 16)]

/-- The wording of a stream fault. -/
def StreamFault.message (wording : Detail → String) : StreamFault → String
  | .emptyObject => "empty encoded object"
  | .unknownFlags flags => "unknown encoding flags " ++ byteText flags
  | .compactObject => "undecodable compact object: " ++ wording .compactObject
  | .verboseObject => "undecodable verbose object: " ++ wording .verboseObject
  | .deflated => "inflate failed: " ++ wording .deflated
  | .shortHello size =>
    "hello of " ++ Decimal.text size ++ " bytes is shorter than the " ++
      Decimal.text helloMinLength ++ " byte minimum"
  | .helloLength declared size =>
    "hello id length " ++ Decimal.signedText declared ++ " does not match a " ++
      Decimal.text size ++ " byte body"
  | .helloObject kind => "expected node identifier in hello, got " ++ kind.name
  | .unexpectedText content => "unexpected text frame " ++ Text.quoted content
  | .messageObject kind => "expected share data, got " ++ kind.name
  | .frameTooShort length =>
    "frame length " ++ Decimal.signedText length ++ " is below the protocol minimum"
  | .frameTooLong length =>
    "frame length " ++ Decimal.signedText length ++ " exceeds the " ++
      Decimal.text maxFrameLength ++ " byte limit"
  | .reported message => message

/-- The wording of an encoding fault. -/
def EncodeFault.message : EncodeFault → String
  | .frameTooLong size =>
    "frame of " ++ Decimal.text size ++ " bytes exceeds the " ++ Decimal.text maxFrameLength ++
      " byte limit"
  | .identTooLong => "node id too long"
  | .reported message => message

/-- The wording of a state fault. -/
def StateFault.message : StateFault → String
  | .managerStarted node => "neighbor manager for " ++ node ++ " already started"
  | .linkNotConnected peer state => "link to " ++ peer ++ " is " ++ state.name
  | .linkClosed peer => "link to " ++ peer ++ " is closed"
  | .alreadyExecuting node => "node " ++ node ++ " is already executing"
  | .reported message => message

/-- The wording of a settings fault. -/
def SettingsFault.message (wording : Detail → String) : SettingsFault → String
  | .dropFraction value =>
    "message_drop_percentage must be within [0, 1], got " ++ value.text .message
  | .lossRate value =>
    "message_drop_percentage " ++ value.text .message ++
      ": p is outside [0, 1] in Bernoulli distribution"
  | .unreadable path => "failed to read " ++ wording (.settingsFile path)
  | .malformed => wording .settingsText

namespace MeshError

/-- The wording of an error. -/
def message (wording : Detail → String) : MeshError → String
  | .outOfSync fault => "stream out of sync: " ++ fault.message wording
  | .io fault => "link I/O error: " ++ wording (.io fault)
  | .encode fault => "failed to encode message: " ++ fault.message
  | .illegalState fault => "illegal state: " ++ fault.message
  | .unknownNode node => "no address known for node " ++ node
  | .mismatch expected actual =>
    "dialed " ++ expected ++ " but peer announced itself as " ++ actual
  | .settings fault => "invalid configuration: " ++ fault.message wording
  | .kernel text => "kernel failed: " ++ text

/-- Whether the connection broke, as opposed to the bytes on it. -/
def isIo : MeshError → Bool
  | .io _ => true
  | _ => false

end MeshError

/-- Settings that are valid, or the reason why they are not. -/
def Settings.check (settings : Settings) : Except MeshError Settings :=
  if settings.isValid then .ok settings
  else .error (.settings (.dropFraction settings.dropFraction))

end RegionGossip
