import RegionGossip.Address
import RegionGossip.Settings

/-!
# The command line of a node

Every option has a long name and one value, which stands behind an equals sign or is the next
argument. A value that is the next argument is looked at only when the next option, or the end, shows
that no further value belongs to it. Arguments that begin with a minus sign are options, except a
lone one, and after two minus signs alone nothing is an option any more. Some options may be given by
the environment instead; an argument goes before that.
-/

namespace RegionGossip

/-- The options that take a value. -/
inductive OptionName
  | nodeId
  | listen
  | neighbor
  | config
  | cycleInterval
  | seedValue
  deriving DecidableEq, Repr

/-- What a command line asks for. -/
structure CommandLine where
  nodeId : String
  listen : String
  neighbors : List (String × Address)
  config : Option String
  cycleInterval : Nat
  seedValue : Int64
  deriving Repr

/-- Values that stand in for options that are not given. -/
structure Environment where
  nodeId : Option String := none
  listen : Option String := none
  config : Option String := none

/-- Why a command line is not run. -/
inductive UsageFault
  | unknownArgument
  | invalidValue
  | valueValidation
  | argumentConflict
  | tooManyValues
  | missingRequiredArgument
  /-- The help text is asked for. -/
  | displayHelp
  deriving DecidableEq, Repr

/-- The wording of a usage fault. -/
def UsageFault.message : UsageFault → String
  | .unknownArgument => "unexpected argument"
  | .invalidValue => "a value is required but none was supplied"
  | .valueValidation => "invalid value"
  | .argumentConflict => "an argument cannot be used multiple times"
  | .tooManyValues => "unexpected value for a flag"
  | .missingRequiredArgument => "the required option --node-id was not provided"
  | .displayHelp =>
    "Usage: regionmesh-node [OPTIONS] --node-id <NODE_ID>\n\nOptions:\n" ++
      "  --node-id <NODE_ID>\n  --listen <LISTEN>\n  --neighbor <ID=HOST:PORT>\n" ++
      "  --config <CONFIG>\n  --cycle-interval-ms <CYCLE_INTERVAL_MS>\n" ++
      "  --seed-value <SEED_VALUE>\n  -h, --help"

/-- Whether the program was used as it should be. -/
def UsageFault.exitCode : UsageFault → Nat
  | .displayHelp => 0
  | _ => 2

namespace CommandLine

/-- The long names of the options. -/
def optionNames : List (String × OptionName) :=
  [("node-id", .nodeId), ("listen", .listen), ("neighbor", .neighbor), ("config", .config),
    ("cycle-interval-ms", .cycleInterval), ("seed-value", .seedValue)]

/-- The address that a node listens on, unless another one is given. -/
def defaultListen : String := "127.0.0.1:7600"

/-- What has been given so far. -/
structure Given where
  nodeId : Option String
  listen : Option String
  neighbors : List (String × Address)
  config : Option String
  cycleInterval : Option Nat
  seedValue : Option Int64

/-- Whether an option that may be given once has been given. -/
def Given.has (given : Given) : OptionName → Bool
  | .nodeId => given.nodeId.isSome
  | .listen => given.listen.isSome
  | .neighbor => false
  | .config => given.config.isSome
  | .cycleInterval => given.cycleInterval.isSome
  | .seedValue => given.seedValue.isSome

/-- The value of an option is checked and kept. -/
def Given.store (given : Given) (option : OptionName) (value : String) : Except UsageFault Given :=
  match option with
  | .nodeId => .ok { given with nodeId := some value }
  | .listen => .ok { given with listen := some value }
  | .neighbor =>
    match Address.parseNeighbor value with
    | .ok neighbor => .ok { given with neighbors := given.neighbors ++ [neighbor] }
    | .error _ => .error .valueValidation
  | .config =>
    if value.isEmpty then .error .invalidValue else .ok { given with config := some value }
  | .cycleInterval =>
    match Decimal.readNat 0xffffffffffffffff value.toList with
    | .ok n => .ok { given with cycleInterval := some n }
    | .error _ => .error .valueValidation
  | .seedValue =>
    match Decimal.readInt 0x7fffffffffffffff value.toList with
    | .ok n => .ok { given with seedValue := some (Int64.ofInt n) }
    | .error _ => .error .valueValidation

/-- The option that waits for its value, and the value once it is there. -/
structure Pending where
  option : OptionName
  value : Option String

/-- The state of reading: what was given, the option that was begun last, and whether options may
still follow. -/
structure Reading where
  given : Given
  pending : Option Pending
  onlyValues : Bool

/-- An option with its value: it may not be repeated, and the value must be one. -/
def settle (given : Given) (option : OptionName) (value : String) : Except UsageFault Given :=
  if given.has option then .error .argumentConflict else given.store option value

/-- The option that was begun last is finished. -/
def finishPending (reading : Reading) : Except UsageFault Reading :=
  match reading.pending with
  | none => .ok reading
  | some ⟨_, none⟩ => .error .invalidValue
  | some ⟨option, some value⟩ => do
    return { reading with given := ← settle reading.given option value, pending := none }

/-- An argument that begins with two minus signs. -/
def readLong (reading : Reading) (name : String) (value : Option String) :
    Except UsageFault Reading :=
  match optionNames.lookup name, value with
  | some option, some value => do
    let reading ← finishPending reading
    return { reading with given := ← settle reading.given option value }
  | some option, none => do
    let reading ← finishPending reading
    return { reading with pending := some ⟨option, none⟩ }
  | none, value =>
    if name = "help" then
      match value with
      | some _ => .error .tooManyValues
      | none => (finishPending reading).bind fun _ => .error .displayHelp
    else .error .unknownArgument

/-- An argument that is no option: the value that an option waits for, or one too many. -/
def readValue (reading : Reading) (value : String) : Except UsageFault Reading :=
  match reading.onlyValues, reading.pending with
  | false, some ⟨option, none⟩ => .ok { reading with pending := some ⟨option, some value⟩ }
  | _, _ => .error .unknownArgument

/-- One argument. -/
def readArgument (reading : Reading) (argument : String) : Except UsageFault Reading :=
  if reading.onlyValues then readValue reading argument
  else
    match argument.toList with
    | ['-', '-'] => .ok { reading with onlyValues := true }
    | '-' :: '-' :: rest =>
      match splitFirst '=' rest with
      | some (name, value) => readLong reading (String.ofList name) (some (String.ofList value))
      | none => readLong reading (String.ofList rest) none
    | '-' :: 'h' :: _ => (finishPending reading).bind fun _ => .error .displayHelp
    | '-' :: _ :: _ => .error .unknownArgument
    | _ => readValue reading argument

/-- The environment gives the value of an option that was not given. -/
def Given.fill (given : Given) (option : OptionName) (value : Option String) :
    Except UsageFault Given :=
  match value with
  | some value => if given.has option then .ok given else given.store option value
  | none => .ok given

/-- The command line of some arguments in an environment. -/
def parseIn (environment : Environment) (arguments : List String) :
    Except UsageFault CommandLine := do
  let start : Reading := ⟨⟨none, none, [], none, none, none⟩, none, false⟩
  let reading ← arguments.foldlM readArgument start
  let reading ← finishPending reading
  let given ← reading.given.fill .nodeId environment.nodeId
  let given ← given.fill .listen environment.listen
  let given ← given.fill .config environment.config
  match given.nodeId with
  | none => .error .missingRequiredArgument
  | some nodeId =>
    .ok
      { nodeId
        listen := given.listen.getD defaultListen
        neighbors := given.neighbors
        config := given.config
        cycleInterval := given.cycleInterval.getD defaultCycleInterval
        seedValue := given.seedValue.getD 0 }

/-- The command line of some arguments, where the environment gives nothing. -/
def parse (arguments : List String) : Except UsageFault CommandLine := parseIn {} arguments

end CommandLine

end RegionGossip
