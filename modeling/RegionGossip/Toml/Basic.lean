import RegionGossip.Binary64.Basic

/-!
# Tables of the TOML format

A TOML text describes a table of named items. A table that only came about as part of a longer name
may still be opened by a header of its own, and one that came about by a dotted key may be extended
by dotted keys only; every other repetition of a name is refused.
-/

namespace RegionGossip.Toml

/-- What a table came about by. -/
inductive Origin
  /-- A header of its own, or braces that are still being read. -/
  | explicit
  /-- A header of a table inside it. -/
  | implied
  /-- A dotted key. -/
  | dotted
  deriving DecidableEq, Repr

/-- An item of a table. -/
inductive Item
  | text (content : String)
  | integer (n : Int)
  | float (x : Binary64)
  | bool (flag : Bool)
  /-- A date, a time of day, or both. -/
  | time
  | array (items : List Item)
  /-- A table in braces, which is complete. -/
  | inlineTable (entries : List (String × Item))
  | table (origin : Origin) (entries : List (String × Item))
  /-- The tables that were opened one after the other under one name, the last one first. -/
  | tables (rows : List (List (String × Item)))
  deriving Inhabited

/-- Named items, in the order in which they were given. -/
abbrev Entries := List (String × Item)

/-- An item is put in the place of the one of that name. -/
def replaceEntry (name : String) (item : Item) : Entries → Entries
  | [] => [(name, item)]
  | (other, held) :: rest =>
    if other = name then (name, item) :: rest else (other, held) :: replaceEntry name item rest

/-- A new item; a name that is taken is refused. -/
def addEntry (name : String) (item : Item) (entries : Entries) : Option Entries :=
  if (entries.lookup name).isSome then none else some (entries ++ [(name, item)])

/-- Changes the table at the end of a path, where missing tables are created. A header goes through
any table and into the last one of a row of tables; dotted keys only go through tables that have no
header of their own. -/
def changeAt (origin : Origin) (change : Origin → Entries → Option Entries) :
    (path : List String) → (current : Origin) → Entries → Option Entries
  | [], current, entries => change current entries
  | name :: path, _, entries =>
    match entries.lookup name with
    | none =>
      (changeAt origin change path origin []).bind fun inner =>
        some (entries ++ [(name, .table origin inner)])
    | some (.table found inner) =>
      if origin = .dotted ∧ found = .explicit then none
      else
        (changeAt origin change path found inner).map fun inner =>
          replaceEntry name (.table found inner) entries
    | some (.tables (last :: rows)) =>
      (changeAt origin change path .explicit last).map fun inner =>
        replaceEntry name (.tables (inner :: rows)) entries
    | some _ => none

/-- A key with its value, in a table that came about in a certain way. A plain key may not be added
to a table made by dotted keys, nor a dotted key to one that was not. -/
def addValue (path : List String) (name : String) (value : Item) (current : Origin)
    (entries : Entries) : Option Entries :=
  changeAt .dotted (fun found inner =>
    if (found = .dotted) = path.isEmpty then none else addEntry name value inner)
    path current entries

/-- A table is opened by its header. -/
def openTable (path : List String) (name : String) (entries : Entries) : Option Entries :=
  changeAt .implied (fun _ inner =>
    match inner.lookup name with
    | none => some (inner ++ [(name, .table .explicit [])])
    | some (.table .implied held) => some (replaceEntry name (.table .explicit held) inner)
    | some _ => none) path .explicit entries

/-- Another table of a row of tables is opened by its header. -/
def openRow (path : List String) (name : String) (entries : Entries) : Option Entries :=
  changeAt .implied (fun _ inner =>
    match inner.lookup name with
    | none => some (inner ++ [(name, .tables [[]])])
    | some (.tables rows) => some (replaceEntry name (.tables ([] :: rows)) inner)
    | some _ => none) path .explicit entries

/-- A key with its value goes into the table that was opened last. -/
def addToOpened (header : List String) (path : List String) (name : String) (value : Item)
    (entries : Entries) : Option Entries :=
  changeAt .implied (fun found inner => addValue path name value found inner) header .explicit
    entries

end RegionGossip.Toml
