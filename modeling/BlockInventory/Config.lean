import BlockInventory.Size

/-!
# Configuration

The one setting of an inventory: the unit that divides its sizes.
-/

set_option autoImplicit false

namespace BlockInventory

/-- How an inventory is made. The unit zero stands for the default. -/
structure Config where
  unit : UInt64 := Size.defaultUnit
  deriving DecidableEq, Repr

/-- The unit by which sizes are divided. -/
def Config.effectiveUnit (config : Config) : UInt64 :=
  Size.effectiveUnit config.unit

end BlockInventory
