import BlockInventory.Toml.Key
import BlockInventory.Toml.Moment
import BlockInventory.Toml.Number
import BlockInventory.Toml.Value

/-!
# Spellings of TOML values

The value at the beginning of a text, with the text after it. Arrays and tables in braces may hold line ends and
comments between their parts, the equals signs of entries included, and a comma after the last item or entry. They
lie in each other to a limited depth. Every item and entry takes up a character, so the length of the document bounds
how many of them follow each other; the readers are given that bound as `most`.
-/

set_option autoImplicit false

namespace BlockInventory.Toml

def deepest : Nat := 80

def isScalarCharacter (character : Char) : Bool :=
  character.isAlphanum || character == '_' || character == '+' || character == '-' || character == '.'
    || character == ':'

/-- The value that a spelling without quotes or brackets stands for. -/
def Value.ofScalar? (spelling : List Char) : Option Value :=
  if spelling = ['t', 'r', 'u', 'e'] then some (.boolean true)
  else if spelling = ['f', 'a', 'l', 's', 'e'] then some (.boolean false)
  else match readInteger? spelling with
    | some value => if isInRange value then some (.integer value) else none
    | none =>
      if isFraction spelling then some (.fraction spelling)
      else if isMoment spelling then some (.moment spelling)
      else none

/-- The spelling of a scalar and the text after it. A date takes in a time of day that follows after one space. -/
def splitScalar (text : List Char) : List Char × List Char :=
  let spelling := text.takeWhile isScalarCharacter
  match text.dropWhile isScalarCharacter with
  | ' ' :: digit :: rest =>
    if digit.isDigit && skipDate? spelling = some [] then
      (spelling ++ ' ' :: (digit :: rest).takeWhile isScalarCharacter,
        (digit :: rest).dropWhile isScalarCharacter)
    else (spelling, ' ' :: digit :: rest)
  | rest => (spelling, rest)

abbrev ValueReader := List Char → Option (Value × List Char)

/-- Reads at most `most` items up to the closing bracket. -/
def readItems (readItem : ValueReader) (most : Nat) (text : List Char) : Option (List Value × List Char) :=
  match most with
  | 0 => none
  | most + 1 => do
    match ← skipGap false text with
    | ']' :: rest => some ([], rest)
    | text =>
      let (item, rest) ← readItem text
      match ← skipGap false rest with
      | ',' :: rest =>
        let (items, rest) ← readItems readItem most rest
        some (item :: items, rest)
      | ']' :: rest => some ([item], rest)
      | _ => none

/-- Reads a key path and its value. What may stand on either side of the equals sign between them depends on where
they are written; `skip` passes over it. -/
def readAssignment (skip : List Char → Option (List Char)) (readItem : ValueReader) (text : List Char) :
    Option ((List String × Value) × List Char) := do
  let (keys, rest) ← readKeyPath text
  match ← skip rest with
  | '=' :: rest =>
    let (value, rest) ← readItem (← skip rest)
    some ((keys, value), rest)
  | _ => none

/-- Reads at most `most` entries up to the closing brace and adds them to a table. -/
def readEntries (readItem : ValueReader) (most : Nat) (table : Table) (text : List Char) : Option (Table × List Char) :=
  match most with
  | 0 => none
  | most + 1 => do
    match ← skipGap false text with
    | '\x7d' :: rest => some (table, rest)
    | text =>
      let ((keys, value), rest) ← readAssignment (skipGap false) readItem text
      let table ← table.assign? value keys
      match ← skipGap false rest with
      | ',' :: rest => readEntries readItem most table rest
      | '\x7d' :: rest => some (table, rest)
      | _ => none

/-- Reads a value in which arrays and tables in braces lie at most `depth` deep in each other. -/
def readValue (most : Nat) : (depth : Nat) → ValueReader
  | _, [] => none
  | _, '"' :: rest => (readQuoted ('"' :: rest)).map fun (text, rest) => (.text (String.ofList text), rest)
  | _, '\'' :: rest => (readQuoted ('\'' :: rest)).map fun (text, rest) => (.text (String.ofList text), rest)
  | 0, '[' :: _ => none
  | depth + 1, '[' :: rest =>
    (readItems (readValue most depth) most rest).map fun (items, rest) => (.array items, rest)
  | 0, '\x7b' :: _ => none
  | depth + 1, '\x7b' :: rest =>
    (readEntries (readValue most depth) most [] rest).map fun (entries, rest) =>
      (.table .inline entries, rest)
  | _, text =>
    let (spelling, rest) := splitScalar text
    (Value.ofScalar? spelling).map fun value => (value, rest)

end BlockInventory.Toml
