import BlockInventory.Toml.Statement

/-!
# TOML documents

The table that the statements of a document build. A header makes its table the one in which the next key paths
begin; before the first header that is the table of the document.
-/

set_option autoImplicit false

namespace BlockInventory.Toml

/-- A document while it is built: its table, and the keys of the table in which key paths begin. -/
structure Document where
  table : Table := []
  current : List String := []

namespace Document

/-- Begins a table that a header names; `beginTable` does so in the table that holds it. -/
def begin? (beginTable : String → Table → Option Table) (document : Document) (keys : List String) :
    Option Document := do
  let key ← keys.getLast?
  let table ← document.table.changeAt? (beginTable key) keys.dropLast
  some { table, current := keys }

/-- Adds a statement, if what came before allows it. -/
def add? (document : Document) : Statement → Option Document
  | .assign keys value =>
    (document.table.changeAt? (Table.assign? value keys) document.current).map fun table =>
      { document with table }
  | .header keys => document.begin? Table.begin? keys
  | .nextHeader keys => document.begin? Table.beginNext? keys

def tableOf? (statements : List Statement) : Option Table :=
  (statements.foldlM add? {}).map (·.table)

def ofText? (text : List Char) : Option Table :=
  (Statement.ofText? text).bind tableOf?

end Document

end BlockInventory.Toml
