import BlockInventory.Toml.Quoted

/-!
# Keys of TOML

A key is bare, made of ASCII letters, digits, underscores and hyphens, or quoted on one line. Keys with dots between
them are a key path, which leads through tables and has a limited length.
-/

set_option autoImplicit false

namespace BlockInventory.Toml

def isBareKey (character : Char) : Bool :=
  character.isAlphanum || character == '_' || character == '-'

def readKey : List Char → Option (String × List Char)
  | '"' :: rest => (readBasic .plain rest).map fun (key, rest) => (String.ofList key, rest)
  | '\'' :: rest => (readLiteral rest).map fun (key, rest) => (String.ofList key, rest)
  | text =>
    match text.takeWhile isBareKey with
    | [] => none
    | key => some (String.ofList key, text.dropWhile isBareKey)

def longestKeyPath : Nat := 80

/-- Reads keys with dots between them, at most `most` of them, and the space around each. -/
def readKeys (most : Nat) (text : List Char) : Option (List String × List Char) :=
  match most with
  | 0 => none
  | most + 1 => do
    let (key, rest) ← readKey (skipSpace text)
    match skipSpace rest with
    | '.' :: rest =>
      let (keys, rest) ← readKeys most rest
      some (key :: keys, rest)
    | rest => some ([key], rest)

/-- Reads a key path, and the space around each of its keys. -/
def readKeyPath (text : List Char) : Option (List String × List Char) :=
  readKeys longestKeyPath text

end BlockInventory.Toml
