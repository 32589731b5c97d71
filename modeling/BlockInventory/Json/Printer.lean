import BlockInventory.Json.Value

/-!
# Writing JSON

Two layouts of a value: compact, without any space between tokens, and pretty, with an item or member on each
line, two spaces for each level, and a space after the colon.
-/

set_option autoImplicit false

namespace BlockInventory.Json

/-- A control character as its code in four hexadecimal digits. -/
def codeEscape (character : Char) : List Char :=
  let code := character.toNat
  ['\\', 'u', '0', '0', Nat.digitChar (code / 16 % 16), Nat.digitChar (code % 16)]

/-- A character inside a string. Quotes, backslashes and control characters are escaped. -/
def escapeChar (character : Char) : List Char :=
  if character = '"' then ['\\', '"']
  else if character = '\\' then ['\\', '\\']
  else if character = '\x08' then ['\\', 'b']
  else if character = '\x0c' then ['\\', 'f']
  else if character = '\n' then ['\\', 'n']
  else if character = '\r' then ['\\', 'r']
  else if character = '\t' then ['\\', 't']
  else if character.toNat < 0x20 then codeEscape character
  else [character]

/-- A string in its quotes. A string without text is written as half a surrogate pair. -/
def writeString : Option String → List Char
  | some text => '"' :: text.toList.flatMap escapeChar ++ ['"']
  | none => ['"', '\\', 'u', 'd', '8', '0', '0', '"']

def writeBoolean : Bool → List Char
  | true => ['t', 'r', 'u', 'e']
  | false => ['f', 'a', 'l', 's', 'e']

/-- A line feed and the spaces of a level. -/
def newLine (level : Nat) : List Char :=
  '\n' :: List.replicate (2 * level) ' '

namespace Value

mutual

def compact : Value → List Char
  | .null => ['n', 'u', 'l', 'l']
  | .boolean value => writeBoolean value
  | .number spelling => spelling
  | .string text => writeString text
  | .array [] => ['[', ']']
  | .array (item :: items) => '[' :: compact item ++ compactItems items ++ [']']
  | .object [] => ['\x7b', '\x7d']
  | .object ((key, value) :: members) =>
    '\x7b' :: writeString key ++ ':' :: compact value ++ compactMembers members ++ ['\x7d']
termination_by structural value => value

/-- Further items of an array, each after a comma. -/
def compactItems : List Value → List Char
  | [] => []
  | item :: items => ',' :: compact item ++ compactItems items
termination_by structural items => items

/-- Further members, each after a comma. -/
def compactMembers : List (Option String × Value) → List Char
  | [] => []
  | (key, value) :: members =>
    ',' :: writeString key ++ ':' :: compact value ++ compactMembers members
termination_by structural members => members

end

mutual

/-- The value with its items and members on lines of their own, at a level below `level`. -/
def pretty (level : Nat) : Value → List Char
  | .null => ['n', 'u', 'l', 'l']
  | .boolean value => writeBoolean value
  | .number spelling => spelling
  | .string text => writeString text
  | .array [] => ['[', ']']
  | .array (item :: items) =>
    '[' :: newLine (level + 1) ++ pretty (level + 1) item ++ prettyItems (level + 1) items
      ++ newLine level ++ [']']
  | .object [] => ['\x7b', '\x7d']
  | .object ((key, value) :: members) =>
    '\x7b' :: newLine (level + 1) ++ writeString key ++ ':' :: ' ' :: pretty (level + 1) value
      ++ prettyMembers (level + 1) members ++ newLine level ++ ['\x7d']
termination_by structural value => value

/-- Further items of an array, each after a comma and on a line of its own. -/
def prettyItems (level : Nat) : List Value → List Char
  | [] => []
  | item :: items => ',' :: newLine level ++ pretty level item ++ prettyItems level items
termination_by structural items => items

/-- Further members, each after a comma and on a line of its own. -/
def prettyMembers (level : Nat) : List (Option String × Value) → List Char
  | [] => []
  | (key, value) :: members =>
    ',' :: newLine level ++ writeString key ++ ':' :: ' ' :: pretty level value
      ++ prettyMembers level members
termination_by structural members => members

end

end Value

end BlockInventory.Json
