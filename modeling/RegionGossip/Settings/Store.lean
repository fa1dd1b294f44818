import RegionGossip.Error

/-!
# Settings that can be replaced

Settings are never changed in place. A handle refers to a cell that holds the current settings;
copies of a handle refer to the same cell, and replacing the settings through one of them is seen by
all. Settings that were taken out of a cell before stay as they are.
-/

namespace RegionGossip

/-- A reference to a cell. -/
structure SettingsHandle where
  cell : Nat
  deriving DecidableEq, Repr

/-- All cells, in the order in which they were opened. -/
structure SettingsStore where
  cells : List Settings
  deriving Repr

namespace SettingsStore

/-- No cell at all. -/
def empty : SettingsStore := ⟨[]⟩

/-- The current settings of a handle. -/
def current (store : SettingsStore) (handle : SettingsHandle) : Settings :=
  (store.cells[handle.cell]?).getD {}

/-- A new cell with the default settings. -/
def openDefault (store : SettingsStore) : SettingsStore × SettingsHandle :=
  (⟨store.cells ++ [({} : Settings)]⟩, ⟨store.cells.length⟩)

/-- A new cell, if the settings are valid. -/
def openCell (store : SettingsStore) (settings : Settings) :
    Except MeshError (SettingsStore × SettingsHandle) := do
  let valid ← settings.check
  return (⟨store.cells ++ [valid]⟩, ⟨store.cells.length⟩)

/-- The settings of a cell are replaced, if the new ones are valid. -/
def replace (store : SettingsStore) (handle : SettingsHandle) (settings : Settings) :
    Except MeshError SettingsStore := do
  let valid ← settings.check
  return ⟨store.cells.set handle.cell valid⟩

end SettingsStore

end RegionGossip
