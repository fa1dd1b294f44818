import RegionGossip.Settings.Store
import RegionGossip.Settings.Toml

/-!
# Use of settings that can be replaced

A program opens cells of settings and makes copies of the handles that it has. Through any handle it
replaces the settings, reads them anew from a file, or takes the current ones out to work with them.
A call that is refused leaves everything as it was, and the program may go on after it.
-/

namespace RegionGossip

/-- The settings of a file take the place of the current ones, if they are valid. -/
def SettingsStore.reload (store : SettingsStore) (handle : SettingsHandle) (path : String)
    (content : Option String) : Except MeshError SettingsStore := do
  let settings ← Settings.ofFile path content
  store.replace handle settings

/-- What a program holds that works with replaceable settings. -/
structure Tuning where
  store : SettingsStore
  /-- All handles, in the order in which they were made. -/
  handles : List SettingsHandle
  /-- The settings that were taken out, in this order. -/
  taken : List Settings
  deriving Repr

namespace Tuning

/-- Nothing has been opened yet. -/
def fresh : Tuning := ⟨.empty, [], []⟩

/-- A call on replaceable settings. Handles are named by their numbers in the order in which they
were made. -/
inductive Call
  | openDefault
  | openCell (settings : Settings)
  /-- One more handle to the cell of a handle. -/
  | copy (number : Nat)
  | replace (number : Nat) (settings : Settings)
  /-- The settings of a file are to replace the current ones. There is no content if the file cannot
  be read. -/
  | reload (number : Nat) (path : String) (content : Option String)
  /-- The current settings are taken out. -/
  | take (number : Nat)
  deriving Repr

/-- A handle was made, maybe to a new cell. -/
def addHandle (tuning : Tuning) (store : SettingsStore) (handle : SettingsHandle) : Tuning :=
  { tuning with store, handles := tuning.handles ++ [handle] }

/-- What a call answers, unless it names a handle that is not there. -/
def answer (tuning : Tuning) : Call → Option (Except MeshError Tuning)
  | .openDefault => some (.ok (tuning.addHandle tuning.store.openDefault.1 tuning.store.openDefault.2))
  | .openCell settings =>
    some ((tuning.store.openCell settings).map fun opened => tuning.addHandle opened.1 opened.2)
  | .copy number => tuning.handles[number]?.map fun handle => .ok (tuning.addHandle tuning.store handle)
  | .replace number settings =>
    tuning.handles[number]?.map fun handle =>
      (tuning.store.replace handle settings).map fun store => { tuning with store }
  | .reload number path content =>
    tuning.handles[number]?.map fun handle =>
      (tuning.store.reload handle path content).map fun store => { tuning with store }
  | .take number =>
    tuning.handles[number]?.map fun handle =>
      .ok { tuning with taken := tuning.taken ++ [tuning.store.current handle] }

/-- What the program holds after a call; a refused call does not change it. -/
def perform (tuning : Tuning) (call : Call) : Tuning :=
  match tuning.answer call with
  | some (.ok after) => after
  | _ => tuning

/-- What the program holds after some calls, one after the other. -/
def drive (tuning : Tuning) (calls : List Call) : Tuning := calls.foldl perform tuning

end Tuning

end RegionGossip
