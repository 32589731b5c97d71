/-!
# TOML values

The data of a TOML document. A table knows how it came to be, because that decides whether later parts of the
document may add to it.
-/

set_option autoImplicit false

namespace BlockInventory.Toml

inductive Origin where
  | header
  /-- A header names a table in it. -/
  | implied
  /-- A key path leads through it. -/
  | dotted
  | inline
  deriving DecidableEq

/-- A TOML value. An array of tables that headers name keeps its latest table first. -/
inductive Value where
  | boolean (value : Bool)
  | integer (value : Int)
  | fraction (spelling : List Char)
  | moment (spelling : List Char)
  | text (text : String)
  | array (items : List Value)
  | table (origin : Origin) (entries : List (String × Value))
  | tables (latestFirst : List (List (String × Value)))

/-- The entries of a table in the order in which they were first named. -/
abbrev Table := List (String × Value)

namespace Table

def replace (table : Table) (key : String) (value : Value) : Table :=
  table.map fun entry => if entry.1 = key then (key, value) else entry

def add? (table : Table) (key : String) (value : Value) : Option Table :=
  if (table.lookup key).isSome then none else some (table ++ [(key, value)])

/-- Gives a value to a key path. Tables on the way are made where they are missing. No header may name one that is
there, except as an array of tables, of which the latest is meant. The last one, which gets the value's key, must have
come to be by a key path too. -/
def assign? (value : Value) : List String → Table → Option Table
  | [], _ => none
  | [key], table => table.add? key value
  | key :: next :: further, table =>
    match table.lookup key with
    | none => (assign? value (next :: further) []).bind fun inner => table.add? key (.table .dotted inner)
    | some (.table origin inner) =>
      if origin = .dotted ∨ (origin = .implied ∧ further ≠ []) then
        (assign? value (next :: further) inner).map fun inner => table.replace key (.table origin inner)
      else none
    | some (.tables (latest :: earlier)) =>
      if further ≠ [] then
        (assign? value (next :: further) latest).map fun latest => table.replace key (.tables (latest :: earlier))
      else none
    | some _ => none

/-- Changes the table that a header's keys lead to. Tables on the way are made where they are missing; of an array of
tables the latest is meant; nothing leads into values and tables in braces. -/
def changeAt? (change : Table → Option Table) : List String → Table → Option Table
  | [], table => change table
  | key :: keys, table =>
    match table.lookup key with
    | none => (changeAt? change keys []).bind fun inner => table.add? key (.table .implied inner)
    | some (.table origin inner) =>
      if origin = .inline then none
      else (changeAt? change keys inner).map fun inner => table.replace key (.table origin inner)
    | some (.tables (latest :: earlier)) =>
      (changeAt? change keys latest).map fun latest => table.replace key (.tables (latest :: earlier))
    | some _ => none

/-- Begins the table that a header names. It may be there already if only headers of tables in it implied it. -/
def begin? (key : String) (table : Table) : Option Table :=
  match table.lookup key with
  | none => table.add? key (.table .header [])
  | some (.table .implied inner) => some (table.replace key (.table .header inner))
  | some _ => none

/-- Begins the next table of the array of tables that a header names. -/
def beginNext? (key : String) (table : Table) : Option Table :=
  match table.lookup key with
  | none => table.add? key (.tables [[]])
  | some (.tables earlier) => some (table.replace key (.tables ([] :: earlier)))
  | some _ => none

end Table

end BlockInventory.Toml
