/-!
# JSON values

The data of a JSON text. Members keep their order and may repeat a key. A number keeps its spelling, so that
reading it is left to whoever knows which numbers are meant. A string may be spelled with half a surrogate
pair; such a string has no text.
-/

set_option autoImplicit false

namespace BlockInventory.Json

/-- A JSON value. The text of a string or key is missing if a surrogate in it stands alone. -/
inductive Value where
  | null
  | boolean (value : Bool)
  | number (spelling : List Char)
  | string (text : Option String)
  | array (items : List Value)
  | object (members : List (Option String × Value))

namespace Value

def ofString (text : String) : Value := .string (some text)

/-- The number written without sign or leading zeros. -/
def ofNat (number : Nat) : Value := .number (Nat.toDigits 10 number)

def ofWord (word : UInt64) : Value := ofNat word.toNat

def ofMembers (entries : List (String × Value)) : Value :=
  .object (entries.map fun (key, value) => (some key, value))

end Value

end BlockInventory.Json
