import Schemata.Classes.Table

/-!
# TOML tables

A document is built statement by statement: a header opens a table or appends one to a list of
tables, and an entry goes into the table that was opened last, possibly below further tables named
by the points in its key. A table can be opened by a header only once, and tables that dotted keys
made belong to the section that made them: later headers and later sections can neither open them
nor add to them by dotted keys. Values that are written out, lists and tables among them, never
change.
-/

namespace Schemata.Toml

/-- What stands under a key. -/
inductive Item where
  /-- A value that was written out. -/
  | value (v : Value)
  /-- A table, and the section from which on it is closed, if it is. -/
  | table (closedFrom : Option Nat) (entries : List (String × Item))
  /-- A list of tables, the last of which is the open one. -/
  | tables (earlier : List (List (String × Item))) (last : List (String × Item))
  deriving Inhabited

/-- The entries of a table. -/
abbrev Entries := List (String × Item)

/-- How a table is reached. -/
inductive Route where
  /-- By a header: tables on the way may be closed, and lists lead to their last table. -/
  | header
  /-- By the points of a key: every table on the way must be open. -/
  | dotted
  deriving DecidableEq

namespace Entries

/-- The entry under a key changed, or made. -/
def alter (entries : Entries) (key : String) (f : Option Item → Option Item) : Option Entries :=
  (f (Keyed.get? entries key)).map (Keyed.put entries key)

/-- Changes the table at the end of a path, making tables on the way. In section `now`, tables that
a key passes become closed for later sections. -/
def changeAt (now : Nat) (f : Entries → Option Entries) : List (Route × String) → Entries →
    Option Entries
  | [], entries => f entries
  | (route, key) :: rest, entries =>
    entries.alter key fun item ↦
      match route, item with
      | .header, none => (changeAt now f rest []).map (.table none)
      | .header, some (.table closed inner) => (changeAt now f rest inner).map (.table closed)
      | .header, some (.tables earlier last) => (changeAt now f rest last).map (.tables earlier)
      | .dotted, none => (changeAt now f rest []).map (.table (some (now + 1)))
      | .dotted, some (.table closed inner) =>
        if closed.any (· ≤ now) then none
        else (changeAt now f rest inner).map (.table (some (now + 1)))
      | _, _ => none

/-- The path of a header. -/
def headerPath (keys : List String) : List (Route × String) := keys.map fun k ↦ (.header, k)

/-- Opens the table under a key. -/
def openTable (now : Nat) (key : String) (entries : Entries) : Option Entries :=
  entries.alter key fun
    | none => some (.table (some now) [])
    | some (.table closed inner) =>
      if closed.any (· ≤ now) then none else some (.table (some now) inner)
    | _ => none

/-- Appends a table to the list under a key. -/
def appendTable (key : String) (entries : Entries) : Option Entries :=
  entries.alter key fun
    | none => some (.tables [] [])
    | some (.tables earlier last) => some (.tables (earlier ++ [last]) [])
    | _ => none

/-- Sets a key that has no value yet. -/
def setNew (key : String) (v : Value) (entries : Entries) : Option Entries :=
  entries.alter key fun
    | none => some (.value v)
    | some _ => none

end Entries

mutual

/-- What stands under a key, as a value. -/
def Item.toValue : Item → Value
  | .value v => v
  | .table _ entries => .map (Entries.toEntries entries)
  | .tables earlier last => .list (Entries.toMaps earlier ++ [.map (Entries.toEntries last)])

/-- The entries of a table as those of a mapping. -/
def Entries.toEntries : List (String × Item) → List (Value × Value)
  | [] => []
  | (k, item) :: rest => (.str k, item.toValue) :: Entries.toEntries rest

/-- Several tables as mappings. -/
def Entries.toMaps : List (List (String × Item)) → List Value
  | [] => []
  | t :: ts => .map (Entries.toEntries t) :: Entries.toMaps ts

end

/-! ## Statements -/

/-- A statement of a document. -/
inductive Statement where
  /-- Opens a table. -/
  | table (path : List String) (key : String)
  /-- Appends a table to a list. -/
  | append (path : List String) (key : String)
  /-- Sets a key below further keys. -/
  | entry (path : List String) (key : String) (v : Value)

/-- A document in the making. -/
structure Draft where
  /-- The number of headers so far. -/
  sections : Nat := 0
  /-- The table that entries go into. -/
  current : List String := []
  /-- The document. -/
  root : Entries := []

/-- A document with one more statement, if the statement is allowed. -/
def Draft.add (d : Draft) : Statement → Option Draft
  | .table path key => do
    let now := d.sections + 1
    let root ← Entries.changeAt now (Entries.openTable now key) (Entries.headerPath path) d.root
    return { sections := now, current := path ++ [key], root }
  | .append path key => do
    let now := d.sections + 1
    let root ← Entries.changeAt now (Entries.appendTable key) (Entries.headerPath path) d.root
    return { sections := now, current := path ++ [key], root }
  | .entry path key v => do
    let route := Entries.headerPath d.current ++ path.map fun k ↦ (.dotted, k)
    let root ← Entries.changeAt d.sections (Entries.setNew key v) route d.root
    return { d with root }

/-- The value of a table that is written out on one line. -/
def inlineTable (entries : List (List String × String × Value)) : Option Value := do
  let root ← entries.foldlM (fun root (path, key, v) ↦
    Entries.changeAt 0 (Entries.setNew key v) (path.map fun k ↦ (.dotted, k)) root) ([] : Entries)
  return .map (Entries.toEntries root)

/-- The value of a document. -/
def ofStatements (statements : List Statement) : Option Value := do
  let d ← statements.foldlM Draft.add {}
  return .map (Entries.toEntries d.root)

end Schemata.Toml
