import BlockInventory.Toml.Spelling

/-!
# Statements of TOML

A document is a sequence of statements, each beginning on a line of its own: a key path with its value, the header of
a table, or the header of the next table of an array of tables. Only space may stand on either side of a statement's
equals sign.
-/

set_option autoImplicit false

namespace BlockInventory.Toml

inductive Statement where
  | assign (keys : List String) (value : Value)
  | header (keys : List String)
  | nextHeader (keys : List String)

namespace Statement

/-- Reads a statement at the beginning of a line, with the text after it. No more than `most` items or entries may
follow each other in its value. -/
def read? (most : Nat) : List Char → Option (Statement × List Char)
  | '[' :: '[' :: rest => do
    match ← readKeyPath rest with
    | (keys, ']' :: ']' :: rest) => some (.nextHeader keys, rest)
    | _ => none
  | '[' :: rest => do
    match ← readKeyPath rest with
    | (keys, ']' :: rest) => some (.header keys, rest)
    | _ => none
  | text => do
    let ((keys, value), rest) ← readAssignment (fun text => some (skipSpace text)) (readValue most deepest) text
    some (.assign keys value, rest)

/-- Reads the statements of at most `left` lines. -/
def readLines (most left : Nat) (text : List Char) : Option (List Statement) :=
  match left, text with
  | _, [] => some []
  | 0, _ => none
  | left + 1, text =>
    match lineEnd? text with
    | some rest => readLines most left rest
    | none => do
      let (statement, rest) ← read? most (skipSpace text)
      let statements ← readLines most left (← lineEnd? rest)
      some (statement :: statements)

def dropByteOrderMark : List Char → List Char
  | '\uFEFF' :: rest => rest
  | text => text

/-- The statements of a document. Its length bounds the number of its lines, and of items and entries in a row. -/
def ofText? (text : List Char) : Option (List Statement) :=
  let text := dropByteOrderMark text
  readLines text.length text.length text

end Statement

end BlockInventory.Toml
