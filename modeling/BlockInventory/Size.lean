/-!
# Sizes

How counts of sectors, blocks and fragments become sizes. Counts and sizes are 64-bit words. A byte count that
does not fit in a word becomes the greatest word; quotients are rounded down. A size is a byte count divided by
the square of the unit, so that unit 1000 gives megabytes and unit 1024 mebibytes; the unit zero stands for 1000.
-/

set_option autoImplicit false

namespace BlockInventory.Size

/-- The unit that is used where none is given. -/
def defaultUnit : UInt64 := 1000

/-- The unit by which sizes are divided: zero stands for the default. -/
def effectiveUnit (unit : UInt64) : UInt64 :=
  if unit = 0 then defaultUnit else unit

/-- The product, or the greatest word where the product does not fit in a word. -/
def saturatingMul (left right : UInt64) : UInt64 :=
  UInt64.ofNat (min (left.toNat * right.toNat) (UInt64.size - 1))

def sectorBytes : UInt64 := 512

/-- The bytes in a block of the partition table. -/
def blockBytes : UInt64 := 1024

def mebibyte : UInt64 := 1048576

/-- The size of a device: its bytes divided by the square of the unit. -/
def ofSectors (sectors unit : UInt64) : UInt64 :=
  let divisor := effectiveUnit unit
  saturatingMul sectors sectorBytes / saturatingMul divisor divisor

/-- The size of a partition: its bytes divided by the unit twice. -/
def ofBlocks (blocks unit : UInt64) : UInt64 :=
  let divisor := effectiveUnit unit
  saturatingMul blocks blockBytes / divisor / divisor

theorem toNat_saturatingMul (left right : UInt64) :
    (saturatingMul left right).toNat = min (left.toNat * right.toNat) (UInt64.size - 1) := by
  simp only [saturatingMul, UInt64.toNat_ofNat', UInt64.size]
  omega

theorem effectiveUnit_ne_zero (unit : UInt64) : effectiveUnit unit ≠ 0 := by
  unfold effectiveUnit
  split
  · decide
  · assumption

theorem effectiveUnit_idem (unit : UInt64) : effectiveUnit (effectiveUnit unit) = effectiveUnit unit := by
  rw [effectiveUnit, if_neg (effectiveUnit_ne_zero unit)]

theorem toNat_effectiveUnit_pos (unit : UInt64) : 0 < (effectiveUnit unit).toNat := by
  apply Nat.pos_of_ne_zero
  intro zero
  exact effectiveUnit_ne_zero unit (UInt64.toNat_inj.mp zero)

theorem toNat_ofSectors (sectors unit : UInt64) :
    (ofSectors sectors unit).toNat = min (sectors.toNat * 512) (UInt64.size - 1)
      / min ((effectiveUnit unit).toNat * (effectiveUnit unit).toNat) (UInt64.size - 1) := by
  rw [ofSectors, UInt64.toNat_div, toNat_saturatingMul, toNat_saturatingMul]
  rfl

theorem toNat_ofBlocks (blocks unit : UInt64) :
    (ofBlocks blocks unit).toNat = min (blocks.toNat * 1024) (UInt64.size - 1)
      / (effectiveUnit unit).toNat / (effectiveUnit unit).toNat := by
  rw [ofBlocks, UInt64.toNat_div, UInt64.toNat_div, toNat_saturatingMul]
  rfl

/-! ## Coarser units -/

variable {fine coarse : UInt64}

theorem square_le_square (finer : effectiveUnit fine ≤ effectiveUnit coarse) :
    (effectiveUnit fine).toNat * (effectiveUnit fine).toNat
      ≤ (effectiveUnit coarse).toNat * (effectiveUnit coarse).toNat :=
  Nat.mul_le_mul (UInt64.le_iff_toNat_le.mp finer) (UInt64.le_iff_toNat_le.mp finer)

/-- In a coarser unit a device is no greater, also where the square of a unit does not fit in a word. -/
theorem ofSectors_antitone (finer : effectiveUnit fine ≤ effectiveUnit coarse) (sectors : UInt64) :
    ofSectors sectors coarse ≤ ofSectors sectors fine := by
  have positive := Nat.mul_pos (toNat_effectiveUnit_pos fine) (toNat_effectiveUnit_pos fine)
  have squares := square_le_square finer
  rw [UInt64.le_iff_toNat_le, toNat_ofSectors, toNat_ofSectors]
  apply Nat.div_le_div_left
  · omega
  · exact Nat.lt_min.mpr ⟨positive, by decide⟩

/-- In a coarser unit a partition is no greater: dividing twice is dividing by the square. -/
theorem ofBlocks_antitone (finer : effectiveUnit fine ≤ effectiveUnit coarse) (blocks : UInt64) :
    ofBlocks blocks coarse ≤ ofBlocks blocks fine := by
  have positive := Nat.mul_pos (toNat_effectiveUnit_pos fine) (toNat_effectiveUnit_pos fine)
  rw [UInt64.le_iff_toNat_le, toNat_ofBlocks, toNat_ofBlocks, Nat.div_div_eq_div_mul, Nat.div_div_eq_div_mul]
  exact Nat.div_le_div_left (square_le_square finer) positive

end BlockInventory.Size
