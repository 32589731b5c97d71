import BlockInventory.Text.Utf8
import Mathlib.Algebra.Group.Nat.Defs

/-!
# ASCII in decoded bytes

An ASCII character in a text that was decoded lossily is an ASCII byte of what was decoded: neither a replacement
nor the end of a longer sequence can be mistaken for one. So a text in ASCII begins what was decoded exactly when its
bytes begin the bytes.
-/

set_option autoImplicit false

namespace BlockInventory.Text.Utf8

def IsAscii (character : Char) : Prop := character.toNat < 0x80

instance : DecidablePred IsAscii := fun character => Nat.decLt character.toNat 0x80

theorem not_isAscii_replacement : ¬IsAscii replacement := by decide

namespace Unfinished

/-- The least code that the character at hand can still have. -/
def leastCode (unfinished : Unfinished) : Nat :=
  (unfinished.code * 64 + unfinished.least % 64) * 64 ^ unfinished.further

/-- The code after the greatest one that the character at hand can still have. -/
def codeLimit (unfinished : Unfinished) : Nat :=
  (unfinished.code * 64 + unfinished.greatest % 64 + 1) * 64 ^ unfinished.further

/-- However the character is finished, it is a character beyond ASCII. -/
structure Sound (unfinished : Unfinished) : Prop where
  least : 0x80 ≤ unfinished.least
  greatest : unfinished.greatest ≤ 0xBF
  long : 0x80 ≤ unfinished.leastCode
  scalar : unfinished.codeLimit ≤ 0xD800 ∨ 0xE000 ≤ unfinished.leastCode ∧ unfinished.codeLimit ≤ 0x110000

variable {code further least greatest : Nat} {byte : UInt8}

theorem Sound.narrows (sound : Sound ⟨code, further + 1, least, greatest⟩)
    (inRange : least ≤ byte.toNat ∧ byte.toNat ≤ greatest) :
    leastCode ⟨code, further + 1, least, greatest⟩ ≤ leastCode ⟨code * 64 + byte.toNat % 64, further, 0x80, 0xBF⟩ ∧
      codeLimit ⟨code * 64 + byte.toNat % 64, further, 0x80, 0xBF⟩
        ≤ codeLimit ⟨code, further + 1, least, greatest⟩ := by
  obtain ⟨atLeast, atMost, _, _⟩ := sound
  simp only at atLeast atMost
  constructor
  · simp only [leastCode, Nat.pow_succ, Nat.mul_comm (64 ^ further) 64, ← Nat.mul_assoc]
    exact Nat.mul_le_mul_right _ (by omega)
  · simp only [codeLimit, Nat.pow_succ, Nat.mul_comm (64 ^ further) 64, ← Nat.mul_assoc]
    exact Nat.mul_le_mul_right _ (by omega)

theorem Sound.next (sound : Sound ⟨code, further + 1, least, greatest⟩)
    (inRange : least ≤ byte.toNat ∧ byte.toNat ≤ greatest) :
    Sound ⟨code * 64 + byte.toNat % 64, further, 0x80, 0xBF⟩ := by
  obtain ⟨raised, lowered⟩ := sound.narrows inRange
  obtain ⟨_, _, long, scalar⟩ := sound
  exact ⟨Nat.le_refl _, Nat.le_refl _, by omega, by omega⟩

/-- The code that the last byte leaves is that of a character. -/
theorem Sound.toNat_finished (sound : Sound ⟨code, 0, least, greatest⟩)
    (inRange : least ≤ byte.toNat ∧ byte.toNat ≤ greatest) :
    (Char.ofNat (code * 64 + byte.toNat % 64)).toNat = code * 64 + byte.toNat % 64 := by
  obtain ⟨atLeast, atMost, _, scalar⟩ := sound
  simp only [leastCode, codeLimit, Nat.pow_zero, Nat.mul_one] at atLeast atMost scalar
  have valid : (code * 64 + byte.toNat % 64).isValidChar := by
    unfold Nat.isValidChar
    omega
  rw [Char.ofNat, dif_pos valid]
  rfl

theorem Sound.finished (sound : Sound ⟨code, 0, least, greatest⟩)
    (inRange : least ≤ byte.toNat ∧ byte.toNat ≤ greatest) :
    ¬IsAscii (Char.ofNat (code * 64 + byte.toNat % 64)) := by
  rw [IsAscii, sound.toNat_finished inRange]
  obtain ⟨atLeast, atMost, long, _⟩ := sound
  simp only [leastCode, Nat.pow_zero, Nat.mul_one] at atLeast atMost long
  omega

end Unfinished

theorem opening_cases {byte : UInt8} {unfinished : Unfinished} (opens : lead byte = .opening unfinished) :
    (0xC2 ≤ byte.toNat ∧ byte.toNat < 0xE0 ∧ unfinished = ⟨byte.toNat - 0xC0, 0, 0x80, 0xBF⟩) ∨
      (0xE0 ≤ byte.toNat ∧ byte.toNat < 0xF0 ∧ unfinished = ⟨byte.toNat - 0xE0, 1,
        if byte.toNat = 0xE0 then 0xA0 else 0x80, if byte.toNat = 0xED then 0x9F else 0xBF⟩) ∨
      (0xF0 ≤ byte.toNat ∧ byte.toNat < 0xF5 ∧ unfinished = ⟨byte.toNat - 0xF0, 2,
        if byte.toNat = 0xF0 then 0x90 else 0x80, if byte.toNat = 0xF4 then 0x8F else 0xBF⟩) := by
  simp only [lead] at opens
  split at opens
  next => exact Lead.noConfusion opens
  next =>
    split at opens
    next => exact Lead.noConfusion opens
    next beyond =>
      have least : 0xC2 ≤ byte.toNat := Nat.le_of_not_lt beyond
      split at opens
      next two => exact .inl ⟨least, two, (Lead.opening.inj opens).symm⟩
      next notTwo =>
        split at opens
        next three => exact .inr (.inl ⟨Nat.le_of_not_lt notTwo, three, (Lead.opening.inj opens).symm⟩)
        next notThree =>
          split at opens
          next four => exact .inr (.inr ⟨Nat.le_of_not_lt notThree, four, (Lead.opening.inj opens).symm⟩)
          next => exact Lead.noConfusion opens

theorem sound_of_lead {byte : UInt8} {unfinished : Unfinished} (opens : lead byte = .opening unfinished) :
    unfinished.Sound := by
  obtain ⟨least, limit, rfl⟩ | ⟨least, limit, rfl⟩ | ⟨least, limit, rfl⟩ := opening_cases opens
  · constructor <;> simp only [Unfinished.leastCode, Unfinished.codeLimit] <;> omega
  · constructor <;> simp only [Unfinished.leastCode, Unfinished.codeLimit] <;> (repeat' split) <;> omega
  · constructor <;> simp only [Unfinished.leastCode, Unfinished.codeLimit] <;> (repeat' split) <;> omega

/-- What has begun leads to a gap or to a character beyond ASCII. -/
theorem Unfinished.Sound.head_scan {unfinished : Unfinished} (sound : unfinished.Sound) (bytes : List UInt8) :
    ∃ first rest, scan (some unfinished) bytes = first :: rest ∧ ¬IsAscii (first.getD replacement) := by
  have gap : ¬IsAscii ((none : Option Char).getD replacement) := not_isAscii_replacement
  induction bytes generalizing unfinished with
  | nil => exact ⟨none, [], rfl, gap⟩
  | cons byte rest ih =>
      obtain ⟨code, further, least, greatest⟩ := unfinished
      by_cases inRange : least ≤ byte.toNat ∧ byte.toNat ≤ greatest
      · cases further with
        | zero =>
            rw [scan_last inRange]
            exact ⟨_, _, rfl, sound.finished inRange⟩
        | succ further =>
            rw [scan_further inRange]
            exact ih (sound.next inRange)
      · rw [scan_refused inRange]
        exact ⟨none, _, rfl, gap⟩

theorem toNat_of_lead_single {byte : UInt8} {character : Char} (single : lead byte = .single character) :
    character.toNat = byte.toNat ∧ byte.toNat < 0x80 := by
  simp only [lead] at single
  split at single
  next ascii =>
    obtain rfl := Lead.single.inj single
    have valid : byte.toNat.isValidChar := .inl (by omega)
    rw [Char.ofNat, dif_pos valid]
    exact ⟨rfl, ascii⟩
  next =>
    repeat' split at single
    all_goals exact Lead.noConfusion single

theorem encodeChar_of_isAscii {character : Char} (ascii : IsAscii character) :
    encodeChar character = [UInt8.ofNat character.toNat] :=
  if_pos ascii

theorem lead_eq_single_iff {byte : UInt8} {character : Char} (ascii : IsAscii character) :
    lead byte = .single character ↔ UInt8.ofNat character.toNat = byte := by
  constructor
  · intro single
    rw [(toNat_of_lead_single single).1, UInt8.ofNat_toNat]
  · rintro rfl
    have code : (UInt8.ofNat character.toNat).toNat = character.toNat := by
      rw [UInt8.toNat_ofNat', Nat.mod_eq_of_lt]
      exact Nat.lt_trans ascii (by decide)
    have single : character.toNat < 0x80 := ascii
    simp only [lead, code, if_pos single, Char.ofNat_toNat]

/-- Text in ASCII begins what was decoded exactly when its bytes begin the bytes. -/
theorem isPrefix_decodeLossy_iff {text : List Char} (ascii : ∀ character ∈ text, IsAscii character)
    (bytes : List UInt8) : text <+: decodeLossy bytes ↔ encode text <+: bytes := by
  induction text generalizing bytes with
  | nil => simp [encode]
  | cons character text ih =>
      have characterAscii := ascii character List.mem_cons_self
      have textAscii : ∀ other ∈ text, IsAscii other := fun other later =>
        ascii other (List.mem_cons_of_mem character later)
      have bytesOf : encode (character :: text) = UInt8.ofNat character.toNat :: encode text := by
        rw [encode, List.flatMap_cons, encodeChar_of_isAscii characterAscii]
        rfl
      rw [bytesOf]
      cases bytes with
      | nil => simp [decodeLossy, scan]
      | cons byte rest =>
          rw [List.cons_prefix_cons, ← lead_eq_single_iff characterAscii]
          have refused {first : Option Char} {others : List (Option Char)}
              (shape : scan none (byte :: rest) = first :: others) (beyond : ¬IsAscii (first.getD replacement)) :
              ¬character :: text <+: decodeLossy (byte :: rest) := by
            rw [decodeLossy, shape, List.map_cons, List.cons_prefix_cons]
            rintro ⟨rfl, _⟩
            exact beyond characterAscii
          cases sort : lead byte with
          | single read =>
              rw [decodeLossy, scan_single sort, List.map_cons, List.cons_prefix_cons, ← ih textAscii,
                decodeLossy, Option.getD_some, Lead.single.injEq, eq_comm]
          | opening unfinished =>
              obtain ⟨first, others, shape, beyond⟩ := (sound_of_lead sort).head_scan rest
              simp [refused (scan_start sort ▸ shape) beyond]
          | stray => simp [refused (scan_stray sort) not_isAscii_replacement]

private theorem mem_scan_iff {character : Char} (ascii : IsAscii character) (bytes : List UInt8) :
    (some character ∈ scan none bytes ↔ UInt8.ofNat character.toNat ∈ bytes) ∧
      ∀ unfinished : Unfinished, unfinished.Sound →
        (some character ∈ scan (some unfinished) bytes ↔ UInt8.ofNat character.toNat ∈ bytes) := by
  -- A byte that does not go on with a character is read afresh, so both states are needed for the rest.
  induction bytes with
  | nil => simp [scan]
  | cons byte rest ih =>
      obtain ⟨restFresh, restBegun⟩ := ih
      have fresh : some character ∈ scan none (byte :: rest) ↔ UInt8.ofNat character.toNat ∈ byte :: rest := by
        rw [List.mem_cons, ← lead_eq_single_iff ascii]
        cases sort : lead byte with
        | single read =>
            rw [scan_single sort, List.mem_cons, restFresh, Option.some.injEq, Lead.single.injEq, eq_comm]
        | opening unfinished =>
            rw [scan_start sort, restBegun unfinished (sound_of_lead sort)]
            simp
        | stray =>
            rw [scan_stray sort, List.mem_cons, restFresh]
            simp
      refine ⟨fresh, ?_⟩
      rintro ⟨code, further, least, greatest⟩ sound
      by_cases inRange : least ≤ byte.toNat ∧ byte.toNat ≤ greatest
      · have different : UInt8.ofNat character.toNat ≠ byte := by
          rw [ne_eq, ← lead_eq_single_iff ascii]
          intro single
          exact absurd (toNat_of_lead_single single).2 (Nat.not_lt.mpr (Nat.le_trans sound.least inRange.1))
        rw [List.mem_cons, or_iff_right different]
        cases further with
        | zero =>
            have beyond : character ≠ Char.ofNat (code * 64 + byte.toNat % 64) := by
              rintro rfl
              exact sound.finished inRange ascii
            rw [scan_last inRange, List.mem_cons, Option.some.injEq, or_iff_right beyond, restFresh]
        | succ further =>
            rw [scan_further inRange]
            exact restBegun _ (sound.next inRange)
      · rw [scan_refused inRange, List.mem_cons, ← fresh]
        simp

theorem mem_decodeLossy_iff {character : Char} (ascii : IsAscii character) (bytes : List UInt8) :
    character ∈ decodeLossy bytes ↔ UInt8.ofNat character.toNat ∈ bytes := by
  rw [← (mem_scan_iff ascii bytes).1, decodeLossy, List.mem_map]
  constructor
  · rintro ⟨read, member, rfl⟩
    cases read with
    | none => exact absurd ascii not_isAscii_replacement
    | some read => exact member
  · intro member
    exact ⟨_, member, rfl⟩

theorem mem_encode_iff {character : Char} (ascii : IsAscii character) (text : List Char) :
    UInt8.ofNat character.toNat ∈ encode text ↔ character ∈ text := by
  rw [← mem_decodeLossy_iff ascii, decodeLossy_encode]

/-- Only its own bytes are decoded to a text in ASCII. -/
theorem decodeLossy_eq_iff {text : List Char} (ascii : ∀ character ∈ text, IsAscii character) (bytes : List UInt8) :
    decodeLossy bytes = text ↔ encode text = bytes := by
  constructor
  · intro decoded
    have begins : text <+: decodeLossy bytes := decoded ▸ List.prefix_refl _
    obtain ⟨rest, shape⟩ := (isPrefix_decodeLossy_iff ascii bytes).mp begins
    rw [← shape, decodeLossy_encode_append] at decoded
    have nothing : decodeLossy rest = [] := List.append_cancel_left (decoded.trans text.append_nil.symm)
    by_cases empty : rest = []
    · rw [← shape, empty, List.append_nil]
    · exact absurd nothing (decodeLossy_ne_nil empty)
  · intro encoded
    rw [← encoded, decodeLossy_encode]

end BlockInventory.Text.Utf8
