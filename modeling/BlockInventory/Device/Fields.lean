import BlockInventory.Json.Value
import BlockInventory.SortedMap
import BlockInventory.Text.Numeral

/-!
# Fields of a record

How a record is read from a JSON value. A record is written as an object, whose unknown members are passed over,
or as an array of its fields in their order, where fields at the end may be left out. A field that is given
twice makes the record unreadable.
-/

set_option autoImplicit false

namespace BlockInventory

/-- The values given for the fields of a record, by name. -/
abbrev GivenFields := List (String × Json.Value)

namespace GivenFields

/-- Members whose keys are text. -/
def ofMembers? (members : List (Option String × Json.Value)) : Option GivenFields :=
  members.mapM fun (key, value) => key.map fun key => (key, value)

/-- The values that an object or an array gives for a record with these field names. -/
def ofValue? (names : List String) : Json.Value → Option GivenFields
  | .object members => ofMembers? members
  | .array items => if items.length ≤ names.length then some (names.zip items) else none
  | _ => none

def valuesOf (given : GivenFields) (name : String) : List Json.Value :=
  (given.filter (·.1 = name)).map (·.2)

variable {α : Type}

/-- Reads a field that has to be given once. -/
def required? (given : GivenFields) (name : String) (read? : Json.Value → Option α) : Option α :=
  match given.valuesOf name with
  | [value] => read? value
  | _ => none

/-- Reads a field that may be left out, for which the default then stands. -/
def withDefault? (given : GivenFields) (name : String) (read? : Json.Value → Option α) (default : α) :
    Option α :=
  match given.valuesOf name with
  | [] => some default
  | [value] => read? value
  | _ => none

end GivenFields

namespace Json.Value

variable {α : Type}

def text? : Value → Option String
  | .string text => text
  | _ => none

/-- Reads a number that is written as digits only and fits in a word. -/
def word? : Value → Option UInt64
  | .number spelling => (Text.Numeral.ofDigits? spelling).bind Text.Numeral.toWord?
  | _ => none

theorem word?_ofWord (word : UInt64) : (ofWord word).word? = some word := by
  have digits : Text.Numeral.ofDigits? (Nat.toDigits 10 word.toNat) = some word.toNat :=
    Text.Numeral.ofDigits?_write word.toNat
  rw [ofWord, ofNat, word?, digits]
  exact Text.Numeral.toWord?_toNat word

/-- Reads a value that may be null. -/
def nullOr? (read? : Value → Option α) : Value → Option (Option α)
  | .null => some none
  | value => (read? value).map some

/-- Reads an object as a map; of several members with one key the last counts. -/
def map? (read? : Value → Option α) : Value → Option (SortedMap α)
  | .object members => do
    let given ← GivenFields.ofMembers? members
    let entries ← given.mapM fun (key, value) => (read? value).map fun value => (key, value)
    some (SortedMap.ofLast entries)
  | _ => none

end Json.Value

namespace GivenFields

/-- Reads a text that may be left out or null. -/
def optionalText? (given : GivenFields) (name : String) : Option (Option String) :=
  given.withDefault? name (Json.Value.nullOr? Json.Value.text?) none

/-- Reads a number that is zero where it is left out. -/
def wordOrZero? (given : GivenFields) (name : String) : Option UInt64 :=
  given.withDefault? name Json.Value.word? 0

variable {given further : GivenFields} {name : String}

/-- The members that were written are the fields that are given. -/
theorem ofMembers?_map_some (entries : GivenFields) :
    ofMembers? (entries.map fun (key, value) => (some key, value)) = some entries := by
  rw [ofMembers?]
  induction entries with
  | nil => rfl
  | cons entry entries ih => simp [List.mapM_cons, ih]

@[simp] theorem valuesOf_cons {key : String} {value : Json.Value} :
    valuesOf ((key, value) :: given) name
      = if key = name then value :: given.valuesOf name else given.valuesOf name := by
  by_cases same : key = name <;> simp [valuesOf, same]

@[simp] theorem valuesOf_append : valuesOf (given ++ further) name = given.valuesOf name ++ further.valuesOf name := by
  simp [valuesOf]

end GivenFields

end BlockInventory
