import BlockInventory.Size
import Mathlib.Algebra.Group.Nat.Defs

/-!
# Exact sizes

A size is the quotient of a byte count by the square of the unit, rounded down. It is exact as long as the byte count
fits in a word, also for units whose square does not fit in one. Devices are divided once and partitions twice, and
still a partition that is no larger than its device has no greater size.
-/

set_option autoImplicit false

namespace BlockInventory.Size

/-- The number by which a unit divides. -/
def divisor (unit : UInt64) : Nat :=
  if unit = 0 then 1000 else unit.toNat

theorem toNat_effectiveUnit (unit : UInt64) : (effectiveUnit unit).toNat = divisor unit := by
  unfold effectiveUnit divisor
  split
  · rfl
  · rfl

/-! ## Steps that may fail -/

/-- A quotient, unless the divisor is zero. -/
def divide? (dividend divisor : UInt64) : Option UInt64 :=
  if divisor = 0 then none else some (dividend / divisor)

/-- The size of a device, unless a step divides by zero. -/
def ofSectors? (sectors unit : UInt64) : Option UInt64 :=
  divide? (saturatingMul sectors sectorBytes) (saturatingMul (effectiveUnit unit) (effectiveUnit unit))

/-- The size of a partition, unless a step divides by zero. -/
def ofBlocks? (blocks unit : UInt64) : Option UInt64 :=
  (divide? (saturatingMul blocks blockBytes) (effectiveUnit unit)).bind fun quotient =>
    divide? quotient (effectiveUnit unit)

theorem saturatingMul_ne_zero {left right : UInt64} (leftNonzero : left ≠ 0) (rightNonzero : right ≠ 0) :
    saturatingMul left right ≠ 0 := by
  intro zero
  have leftPositive : 0 < left.toNat := Nat.pos_of_ne_zero fun same => leftNonzero (UInt64.toNat_inj.mp same)
  have rightPositive : 0 < right.toNat := Nat.pos_of_ne_zero fun same => rightNonzero (UInt64.toNat_inj.mp same)
  have product := Nat.mul_pos leftPositive rightPositive
  have value := toNat_saturatingMul left right
  rw [zero, UInt64.toNat_zero, UInt64.size] at value
  omega

theorem ofSectors?_eq_some (sectors unit : UInt64) : ofSectors? sectors unit = some (ofSectors sectors unit) := by
  have nonzero := effectiveUnit_ne_zero unit
  exact if_neg (saturatingMul_ne_zero nonzero nonzero)

theorem ofBlocks?_eq_some (blocks unit : UInt64) : ofBlocks? blocks unit = some (ofBlocks blocks unit) := by
  have nonzero := effectiveUnit_ne_zero unit
  rw [ofBlocks?, divide?, if_neg nonzero, Option.bind_some, divide?, if_neg nonzero]
  rfl

/-! ## Quotients -/

variable {sectors blocks unit : UInt64}

theorem toNat_ofSectors_eq_div (sectors unit : UInt64) :
    (ofSectors sectors unit).toNat =
      min (512 * sectors.toNat) (2 ^ 64 - 1) / min (divisor unit ^ 2) (2 ^ 64 - 1) := by
  rw [toNat_ofSectors, toNat_effectiveUnit, Nat.mul_comm sectors.toNat, ← Nat.pow_two]
  rfl

/-- Rounding down twice is rounding down once. -/
theorem toNat_ofBlocks_eq_div (blocks unit : UInt64) :
    (ofBlocks blocks unit).toNat = min (1024 * blocks.toNat) (2 ^ 64 - 1) / divisor unit ^ 2 := by
  rw [toNat_ofBlocks, toNat_effectiveUnit, Nat.div_div_eq_div_mul, Nat.mul_comm blocks.toNat, ← Nat.pow_two]
  rfl

/-- A divisor that is too great may be cut to any bound above the dividend: the quotient is zero either way. -/
theorem div_min_eq_div {dividend divisor bound : Nat} (below : dividend < bound) :
    dividend / min divisor bound = dividend / divisor := by
  rcases Nat.le_total divisor bound with fits | exceeds
  · rw [Nat.min_eq_left fits]
  · rw [Nat.min_eq_right exceeds, Nat.div_eq_of_lt below, Nat.div_eq_of_lt (Nat.lt_of_lt_of_le below exceeds)]

theorem toNat_ofSectors_of_lt (fits : sectors.toNat < 2 ^ 55) :
    (ofSectors sectors unit).toNat = 512 * sectors.toNat / divisor unit ^ 2 := by
  -- Whole sectors that fit in a word stay below its greatest value, so the cut of the square does not show.
  have below : 512 * sectors.toNat < 2 ^ 64 - 1 := by omega
  rw [toNat_ofSectors_eq_div, Nat.min_eq_left (Nat.le_of_lt below), div_min_eq_div below]

theorem toNat_ofSectors_of_le (overflows : 2 ^ 55 ≤ sectors.toNat) :
    (ofSectors sectors unit).toNat = (2 ^ 64 - 1) / min (divisor unit ^ 2) (2 ^ 64 - 1) := by
  have above : 2 ^ 64 - 1 ≤ 512 * sectors.toNat := by omega
  rw [toNat_ofSectors_eq_div, Nat.min_eq_right above]

theorem toNat_ofBlocks_of_lt (fits : blocks.toNat < 2 ^ 54) :
    (ofBlocks blocks unit).toNat = 1024 * blocks.toNat / divisor unit ^ 2 := by
  have below : 1024 * blocks.toNat ≤ 2 ^ 64 - 1 := by omega
  rw [toNat_ofBlocks_eq_div, Nat.min_eq_left below]

theorem toNat_ofBlocks_of_le (overflows : 2 ^ 54 ≤ blocks.toNat) :
    (ofBlocks blocks unit).toNat = (2 ^ 64 - 1) / divisor unit ^ 2 := by
  have above : 2 ^ 64 - 1 ≤ 1024 * blocks.toNat := by omega
  rw [toNat_ofBlocks_eq_div, Nat.min_eq_right above]

/-- No step fails or wraps around, and every size is the exact quotient until its byte count does not fit in a word. -/
theorem exact_until_bytes_overflow (unit : UInt64) :
    (∀ sectors, ofSectors? sectors unit = some (ofSectors sectors unit)) ∧
      (∀ blocks, ofBlocks? blocks unit = some (ofBlocks blocks unit)) ∧
      (∀ left right, (saturatingMul left right).toNat = min (left.toNat * right.toNat) (2 ^ 64 - 1)) ∧
      (∀ sectors : UInt64, sectors.toNat < 2 ^ 55 →
        (ofSectors sectors unit).toNat = 512 * sectors.toNat / divisor unit ^ 2) ∧
      (∀ blocks : UInt64, blocks.toNat < 2 ^ 54 →
        (ofBlocks blocks unit).toNat = 1024 * blocks.toNat / divisor unit ^ 2) ∧
      (∀ sectors : UInt64, 2 ^ 55 ≤ sectors.toNat →
        (ofSectors sectors unit).toNat = (2 ^ 64 - 1) / min (divisor unit ^ 2) (2 ^ 64 - 1)) ∧
      ∀ blocks : UInt64, 2 ^ 54 ≤ blocks.toNat →
        (ofBlocks blocks unit).toNat = (2 ^ 64 - 1) / divisor unit ^ 2 := by
  refine ⟨?_, ?_, ?_, ?_, ?_, ?_, ?_⟩
  · intro sectors
    exact ofSectors?_eq_some sectors unit
  · intro blocks
    exact ofBlocks?_eq_some blocks unit
  · intro left right
    exact toNat_saturatingMul left right
  · intro sectors fits
    exact toNat_ofSectors_of_lt fits
  · intro blocks fits
    exact toNat_ofBlocks_of_lt fits
  · intro sectors overflows
    exact toNat_ofSectors_of_le overflows
  · intro blocks overflows
    exact toNat_ofBlocks_of_le overflows

/-- One more sector makes the byte count overflow. The square of the unit overflows in any case. -/
theorem exact_until_bytes_overflow_lastSector :
    (ofSectors 36028797018963967 4294967296).toNat = 512 * 36028797018963967 / 4294967296 ^ 2 ∧
      (ofSectors 36028797018963968 4294967296).toNat = 1 ∧ (ofBlocks 18014398509481984 4294967296).toNat = 0 := by
  obtain ⟨_, _, _, exact, _, cut, cutBlocks⟩ := exact_until_bytes_overflow 4294967296
  refine ⟨exact 36028797018963967 (by decide), ?_, ?_⟩
  · rw [cut 36028797018963968 (by decide)]
    decide
  · rw [cutBlocks 18014398509481984 (by decide)]
    decide

/-! ## Devices and partitions on one scale -/

theorem divisor_pos (unit : UInt64) : 0 < divisor unit := by
  rw [← toNat_effectiveUnit]
  exact toNat_effectiveUnit_pos unit

theorem ofBlocks_le_ofSectors (inside : 2 * blocks.toNat ≤ sectors.toNat) :
    ofBlocks blocks unit ≤ ofSectors sectors unit := by
  have bytes : min (1024 * blocks.toNat) (2 ^ 64 - 1) ≤ min (512 * sectors.toNat) (2 ^ 64 - 1) := by omega
  have positive : 0 < min (divisor unit ^ 2) (2 ^ 64 - 1) :=
    Nat.lt_min.mpr ⟨Nat.pow_pos (divisor_pos unit), by decide⟩
  rw [UInt64.le_iff_toNat_le, toNat_ofBlocks_eq_div, toNat_ofSectors_eq_div]
  exact Nat.div_le_div bytes (Nat.min_le_left _ _) (Nat.ne_of_gt positive)

theorem ofBlocks_eq_ofSectors (same : sectors.toNat = 2 * blocks.toNat)
    (apart : ¬(2 ^ 54 ≤ blocks.toNat ∧ 2 ^ 32 ≤ divisor unit)) :
    ofBlocks blocks unit = ofSectors sectors unit := by
  have bytes : 512 * sectors.toNat = 1024 * blocks.toNat := by omega
  rw [← UInt64.toNat_inj, toNat_ofBlocks_eq_div, toNat_ofSectors_eq_div, bytes]
  -- Either the bytes fit, and then a cut of the square does not show, or the square fits and is not cut.
  rcases Nat.lt_or_ge blocks.toNat (2 ^ 54) with fits | overflows
  · have below : 1024 * blocks.toNat < 2 ^ 64 - 1 := by omega
    rw [Nat.min_eq_left (Nat.le_of_lt below), div_min_eq_div below]
  · have small : divisor unit ≤ 2 ^ 32 - 1 := by omega
    have square : divisor unit ^ 2 ≤ 2 ^ 64 - 1 := Nat.le_trans (Nat.pow_le_pow_left small 2) (by decide)
    rw [Nat.min_eq_left square]

/-- Where bytes and square both exceed the greatest word, one division of a cut count by a cut square gives one. -/
theorem ofBlocks_ofSectors_of_both_overflow (same : sectors.toNat = 2 * blocks.toNat)
    (overflows : 2 ^ 54 ≤ blocks.toNat) (great : 2 ^ 32 ≤ divisor unit) :
    ofBlocks blocks unit = 0 ∧ ofSectors sectors unit = 1 := by
  have square : 2 ^ 64 ≤ divisor unit ^ 2 := by
    have squared := Nat.pow_le_pow_left great 2
    rwa [← Nat.pow_mul] at squared
  constructor
  · rw [← UInt64.toNat_inj, toNat_ofBlocks_of_le overflows]
    exact Nat.div_eq_of_lt (Nat.lt_of_lt_of_le (by decide) square)
  · have sectorsOverflow : 2 ^ 55 ≤ sectors.toNat := by omega
    rw [← UInt64.toNat_inj, toNat_ofSectors_of_le sectorsOverflow,
      Nat.min_eq_right (Nat.le_trans (Nat.sub_le _ _) square)]
    rfl

/-- A partition within its device is no greater, and one that fills it is as great, unless the byte count and the
square of the unit both exceed the greatest word. -/
theorem partition_within_device (sectors blocks unit : UInt64) :
    (2 * blocks.toNat ≤ sectors.toNat → ofBlocks blocks unit ≤ ofSectors sectors unit) ∧
      (sectors.toNat = 2 * blocks.toNat →
        if 2 ^ 54 ≤ blocks.toNat ∧ 2 ^ 32 ≤ divisor unit then ofBlocks blocks unit = 0 ∧ ofSectors sectors unit = 1
        else ofBlocks blocks unit = ofSectors sectors unit) := by
  constructor
  · intro inside
    exact ofBlocks_le_ofSectors inside
  · intro same
    split
    next corner => exact ofBlocks_ofSectors_of_both_overflow same corner.1 corner.2
    next apart => exact ofBlocks_eq_ofSectors same apart

/-- In the corner a partition seems smaller than the device that it fills. One block less, and both sizes are zero. -/
theorem partition_within_device_corner :
    (ofBlocks 18014398509481984 4294967296 = 0 ∧ ofSectors 36028797018963968 4294967296 = 1) ∧
      ofBlocks 18014398509481983 4294967296 = ofSectors 36028797018963966 4294967296 ∧
      ofBlocks 18014398509481983 4294967296 ≤ ofSectors 36028797018963968 4294967296 :=
  ⟨(partition_within_device 36028797018963968 18014398509481984 4294967296).2 (by decide),
    (partition_within_device 36028797018963966 18014398509481983 4294967296).2 (by decide),
    (partition_within_device 36028797018963968 18014398509481983 4294967296).1 (by decide)⟩

end BlockInventory.Size
