import BlockInventory.Config
import BlockInventory.FileTree.Access
import BlockInventory.Toml.Document

/-!
# Configuration files

The configuration as a TOML document: the key `unit` in the document's own table. Other keys are passed over; without
the key the default stands.
-/

set_option autoImplicit false

namespace BlockInventory

/-- Why a configuration cannot be had. -/
inductive ConfigError where
  | unreadable (path : Path) (cause : AccessError)
  | notToml
  /-- The unit is no integer from zero to the greatest word. -/
  | unitOutOfRange
  deriving DecidableEq, Repr

namespace ConfigError

def detail : ConfigError → String
  | .unreadable _ cause => cause.message
  | .notToml => "not a TOML document"
  | .unitOutOfRange => "the unit is not an unsigned 64-bit integer"

def message : ConfigError → String
  | .unreadable path cause => s!"failed to read config {path.display}: {cause.message}"
  | .notToml => s!"invalid config: {notToml.detail}"
  | .unitOutOfRange => s!"invalid config: {unitOutOfRange.detail}"

end ConfigError

namespace Config

/-- The unit that a value stands for. -/
def unitOf? : Toml.Value → Option UInt64
  | .integer value => if 0 ≤ value ∧ value < UInt64.size then some (UInt64.ofNat value.toNat) else none
  | _ => none

def ofTable (table : Toml.Table) : Except ConfigError Config :=
  match table.lookup "unit" with
  | none => .ok {}
  | some value =>
    match unitOf? value with
    | some unit => .ok { unit }
    | none => .error .unitOutOfRange

def ofText (text : List Char) : Except ConfigError Config :=
  match Toml.Document.ofText? text with
  | some table => ofTable table
  | none => .error .notToml

def load (files : FileTree) (path : Path) : Except ConfigError Config :=
  match files.readText path with
  | .ok text => ofText text
  | .error cause => .error (.unreadable path cause)

end Config

end BlockInventory
