import BlockInventory.Text.Utf8
import Mathlib.Data.List.Basic

/-!
# The order of encoded texts

Texts are ordered as their UTF-8 bytes are: of two characters the one with the smaller code has the smaller byte where
their bytes first differ, and neither has bytes with which those of the other begin.
-/

set_option autoImplicit false

namespace BlockInventory.Text.Utf8

/-- At the first place where the bytes differ, both have one and the left's is smaller. -/
inductive Below : List UInt8 → List UInt8 → Prop where
  | here {byte other : UInt8} {bytes others : List UInt8} : byte < other → Below (byte :: bytes) (other :: others)
  | later {byte : UInt8} {bytes others : List UInt8} : Below bytes others → Below (byte :: bytes) (byte :: others)

namespace Below

variable {byte other : UInt8} {bytes others : List UInt8}

theorem append_lt (below : Below bytes others) (rest further : List UInt8) : bytes ++ rest < others ++ further := by
  induction below with
  | here smaller => exact .rel smaller
  | later _ ih => exact .cons ih

@[simp] theorem not_nil : ¬Below [] others := by
  intro below
  cases below

theorem cons_iff : Below (byte :: bytes) (other :: others) ↔
    byte.toNat < other.toNat ∨ byte.toNat = other.toNat ∧ Below bytes others := by
  constructor
  · intro below
    cases below with
    | here smaller => exact .inl (UInt8.lt_iff_toNat_lt.mp smaller)
    | later below => exact .inr ⟨rfl, below⟩
  · rintro (smaller | ⟨same, below⟩)
    · exact .here (UInt8.lt_iff_toNat_lt.mpr smaller)
    · obtain rfl := UInt8.toNat_inj.mp same
      exact .later below

end Below

theorem encodeChar_cases (character : Char) :
    character.toNat < 0x80 ∧ encodeChar character = [UInt8.ofNat character.toNat] ∨
      0x80 ≤ character.toNat ∧ character.toNat < 0x800 ∧
        encodeChar character = [UInt8.ofNat (0xC0 + character.toNat / 64), trailing character.toNat] ∨
      0x800 ≤ character.toNat ∧ character.toNat < 0x10000 ∧
        encodeChar character = [UInt8.ofNat (0xE0 + character.toNat / 4096), trailing (character.toNat / 64),
          trailing character.toNat] ∨
      0x10000 ≤ character.toNat ∧ character.toNat < 0x110000 ∧
        encodeChar character = [UInt8.ofNat (0xF0 + character.toNat / 262144), trailing (character.toNat / 4096),
          trailing (character.toNat / 64), trailing character.toNat] := by
  have limit : character.toNat < 0x110000 := by
    rcases character.valid with below | ⟨_, below⟩
    · exact Nat.lt_trans below (by decide)
    · exact below
  unfold encodeChar
  simp only
  split
  next one => exact .inl ⟨one, rfl⟩
  next notOne =>
    split
    next two => exact .inr (.inl ⟨Nat.le_of_not_lt notOne, two, rfl⟩)
    next notTwo =>
      split
      next three => exact .inr (.inr (.inl ⟨Nat.le_of_not_lt notTwo, three, rfl⟩))
      next notThree => exact .inr (.inr (.inr ⟨Nat.le_of_not_lt notThree, limit, rfl⟩))

theorem below_encodeChar {character other : Char} (smaller : character < other) :
    Below (encodeChar character) (encodeChar other) := by
  have codes : character.toNat < other.toNat := smaller
  have twice (number : Nat) : number / 4096 = number / 64 / 64 := (Nat.div_div_eq_div_mul number 64 64).symm
  have thrice (number : Nat) : number / 262144 = number / 64 / 64 / 64 := by
    rw [Nat.div_div_eq_div_mul, Nat.div_div_eq_div_mul]
  -- The first byte of a longer character is greater; within a length the code is written in digits of six bits.
  rcases encodeChar_cases character with ⟨_, bytes⟩ | ⟨_, _, bytes⟩ | ⟨_, _, bytes⟩ | ⟨_, _, bytes⟩ <;>
    rcases encodeChar_cases other with ⟨_, others⟩ | ⟨_, _, others⟩ | ⟨_, _, others⟩ | ⟨_, _, others⟩ <;>
    simp (disch := omega) only [bytes, others, Below.cons_iff, Below.not_nil, and_false, or_false, toNat_trailing,
      toNat_ofNat, twice, thrice] <;>
    omega

theorem encode_lt_encode {text other : List Char} (smaller : text < other) : encode text < encode other := by
  induction smaller with
  | nil =>
      obtain ⟨byte, bytes, shape⟩ := List.exists_cons_of_ne_nil (encode_ne_nil (List.cons_ne_nil _ _))
      rw [shape]
      exact .nil
  | rel smaller => exact (below_encodeChar smaller).append_lt _ _
  | cons _ ih => exact List.append_left_lt ih

end BlockInventory.Text.Utf8
