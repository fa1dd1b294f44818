import RegionGossip.Execution.Basic

/-!
# Programs that follow a script

A program whose rounds do what a script says, one entry after the other, and whose hooks panic at
one round each, if at all. It takes no notice of the neighbours and publishes nothing.
-/

namespace RegionGossip

/-- What a round does. -/
inductive ScriptedRound
  | returns (value : Value)
  | fails (error : MeshError)
  | panics

/-- A program that follows a script. A round after its end fails. -/
def Program.scripted (beforePanics afterPanics : Option Nat) : Program (List ScriptedRound) where
  before _ round script :=
    (if beforePanics = some round then .panicked else .returned (), script)
  round _ script :=
    match script with
    | [] => (.returned (.error (.kernel "script exhausted")), [])
    | .returns value :: script => (.returned (.ok ⟨value, Payload.empty⟩), script)
    | .fails error :: script => (.returned (.error error), script)
    | .panics :: script => (.panicked, script)
  after _ round _ script :=
    (if afterPanics = some round then .panicked else .returned (), script)

end RegionGossip
