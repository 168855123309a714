import Enclosure.Settings.Basic

/-!
This module contains the tables that a TOML document builds up, line by line, and the rules on who
may add to a table.
-/

namespace Enclosure.Toml

inductive Maker where
  | header
  -- A header of a table inside it.
  | implied
  | dotted
  deriving DecidableEq, Repr

inductive Node where
  | value (v : Setting)
  | table (maker : Maker) (rows : List (String × Node))
  -- A list of tables, whose last one is being filled.
  | tables (done : Nat) (rows : List (String × Node))

abbrev Rows := List (String × Node)

def Node.toSetting : Node → Setting
  | value v => v
  | table .. => .table
  | tables .. => .list

def Rows.update (name : String) (f : Option Node → Option Node) (rows : Rows) : Option Rows :=
  match rows with
  | [] => (f none).map fun n => [(name, n)]
  | (k, n) :: rest =>
    if k = name then (f (some n)).map fun n => (k, n) :: rest
    else (update name f rest).map ((k, n) :: ·)

-- Works inside the table that headers name by a path. Tables on the way that are not there yet
-- are implied, and of a list of tables it is the last one.
def Rows.inside (f : Rows → Option Rows) : List String → Rows → Option Rows
  | [], rows => f rows
  | name :: path, rows => rows.update name fun
    | none => (inside f path []).map (.table .implied)
    | some (.table maker rows) => (inside f path rows).map (.table maker)
    | some (.tables done rows) => (inside f path rows).map (.tables done)
    | some (.value _) => none

-- The table of a header, which only an implied table may precede.
def Rows.openTable (name : String) (rows : Rows) : Option Rows :=
  rows.update name fun
    | none => some (.table .header [])
    | some (.table .implied rows) => some (.table .header rows)
    | _ => none

def Rows.openElement (name : String) (rows : Rows) : Option Rows :=
  rows.update name fun
    | none => some (.tables 0 [])
    | some (.tables done _) => some (.tables (done + 1) [])
    | _ => none

-- Adds a value under a dotted key. The key may lead through lists of tables and through tables
-- without a header, which belong to dotted keys from then on. It may not end right inside the
-- last table of a list.
def Rows.assign (value : Setting) : (key : List String) → Rows → Option Rows
  | [], _ => none
  | [name], rows =>
    rows.update name fun
      | none => some (.value value)
      | some _ => none
  | name :: path, rows => rows.update name fun
    | none => (assign value path []).map (.table .dotted)
    | some (.table .header _) | some (.value _) => none
    | some (.table _ rows) => (assign value path rows).map (.table .dotted)
    | some (.tables done rows) =>
      if path.length = 1 then none else (assign value path rows).map (.tables done)

end Enclosure.Toml
