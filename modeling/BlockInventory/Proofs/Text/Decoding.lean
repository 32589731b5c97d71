import BlockInventory.Proofs.Success
import BlockInventory.Proofs.Text.Ascii

/-!
# Text in decoded bytes

Bytes decode to a text exactly when they are the bytes of that text, so strict decoding accepts what was encoded and
nothing else. Inside a character, the bytes that were read begin the bytes of each character that the one at hand can
still become. A further byte keeps it so, and the last one completes the bytes of the character that is read.
-/

set_option autoImplicit false

namespace BlockInventory.Text.Utf8

/-- The last bytes of a code, for the bits that its first bytes leave. -/
def lastBytes (code : Nat) : Nat → List UInt8
  | 0 => [trailing code]
  | further + 1 => trailing (code / 64 ^ (further + 1)) :: lastBytes code further

theorem trailing_eq {bits : Nat} {byte : UInt8} (range : 0x80 ≤ byte.toNat ∧ byte.toNat ≤ 0xBF)
    (same : bits % 64 = byte.toNat % 64) : trailing bits = byte := by
  have value : 0x80 + bits % 64 = byte.toNat := by omega
  rw [trailing, value, UInt8.ofNat_toNat]

namespace Unfinished

/-- The bytes begin those of every character that the one at hand can still become. -/
def BegunBy (unfinished : Unfinished) (begun : List UInt8) : Prop :=
  ∀ character : Char, unfinished.leastCode ≤ character.toNat → character.toNat < unfinished.codeLimit →
    encodeChar character = begun ++ lastBytes character.toNat unfinished.further

theorem leastCode_trailing (code further : Nat) : leastCode ⟨code, further, 0x80, 0xBF⟩ = code * 64 ^ (further + 1) := by
  simp [leastCode, Nat.pow_succ', Nat.mul_assoc]

theorem codeLimit_trailing (code further : Nat) :
    codeLimit ⟨code, further, 0x80, 0xBF⟩ = (code + 1) * 64 ^ (further + 1) := by
  have next : code * 64 + 0xBF % 64 + 1 = (code + 1) * 64 := by omega
  simp only [codeLimit, next, Nat.pow_succ', Nat.mul_assoc]

variable {code further least greatest : Nat} {byte : UInt8} {begun : List UInt8}

theorem Sound.range (sound : Sound ⟨code, further, least, greatest⟩)
    (inRange : least ≤ byte.toNat ∧ byte.toNat ≤ greatest) : 0x80 ≤ byte.toNat ∧ byte.toNat ≤ 0xBF :=
  ⟨Nat.le_trans sound.least inRange.1, Nat.le_trans inRange.2 sound.greatest⟩

theorem BegunBy.next (begins : BegunBy ⟨code, further + 1, least, greatest⟩ begun)
    (sound : Sound ⟨code, further + 1, least, greatest⟩) (inRange : least ≤ byte.toNat ∧ byte.toNat ≤ greatest) :
    BegunBy ⟨code * 64 + byte.toNat % 64, further, 0x80, 0xBF⟩ (begun ++ [byte]) := by
  intro character atLeast atMost
  obtain ⟨raised, lowered⟩ := sound.narrows inRange
  have bytes := begins character (Nat.le_trans raised atLeast) (Nat.lt_of_lt_of_le atMost lowered)
  rw [leastCode_trailing] at atLeast
  rw [codeLimit_trailing] at atMost
  have quotient : character.toNat / 64 ^ (further + 1) = code * 64 + byte.toNat % 64 :=
    Nat.div_eq_of_lt_le atLeast atMost
  have range := sound.range inRange
  have read : trailing (character.toNat / 64 ^ (further + 1)) = byte := by
    apply trailing_eq range
    omega
  rw [bytes, lastBytes, read, List.append_assoc, List.singleton_append]

theorem BegunBy.finished (begins : BegunBy ⟨code, 0, least, greatest⟩ begun)
    (sound : Sound ⟨code, 0, least, greatest⟩) (inRange : least ≤ byte.toNat ∧ byte.toNat ≤ greatest) :
    encodeChar (Char.ofNat (code * 64 + byte.toNat % 64)) = begun ++ [byte] := by
  have range := sound.range inRange
  have value := sound.toNat_finished inRange
  have atMost : greatest ≤ 0xBF := sound.greatest
  have atLeast : 0x80 ≤ least := sound.least
  have bytes := begins (Char.ofNat (code * 64 + byte.toNat % 64))
    (by simp only [leastCode, value]; omega) (by simp only [codeLimit, value]; omega)
  rw [bytes, value, lastBytes, trailing_eq range (by omega)]

end Unfinished

/-- The first byte of a character begins the bytes of every character that it can become. -/
theorem begunBy_of_lead {byte : UInt8} {unfinished : Unfinished} (opens : lead byte = .opening unfinished) :
    unfinished.BegunBy [byte] := by
  have read {value : Nat} (same : value = byte.toNat) : UInt8.ofNat value = byte := by
    rw [same, UInt8.ofNat_toNat]
  intro character atLeast atMost
  obtain ⟨least, limit, rfl⟩ | ⟨least, limit, rfl⟩ | ⟨least, limit, rfl⟩ := opening_cases opens
  · simp only [Unfinished.leastCode, Unfinished.codeLimit] at atLeast atMost
    rw [encodeChar, if_neg (by omega), if_pos (by omega), read (by omega)]
    simp [lastBytes]
  · simp only [Unfinished.leastCode, Unfinished.codeLimit] at atLeast atMost
    have bounds : 0x800 ≤ character.toNat ∧ character.toNat / 4096 = byte.toNat - 0xE0 := by
      split at atLeast <;> split at atMost <;> omega
    rw [encodeChar, if_neg (by omega), if_neg (by omega), if_pos (by omega), read (by omega)]
    simp [lastBytes]
  · simp only [Unfinished.leastCode, Unfinished.codeLimit] at atLeast atMost
    have bounds : 0x10000 ≤ character.toNat ∧ character.toNat / 262144 = byte.toNat - 0xF0 := by
      split at atLeast <;> split at atMost <;> omega
    rw [encodeChar, if_neg (by omega), if_neg (by omega), if_neg (by omega), read (by omega)]
    simp [lastBytes]

theorem encodeChar_of_lead_single {byte : UInt8} {character : Char} (single : lead byte = .single character) :
    encodeChar character = [byte] := by
  obtain ⟨code, ascii⟩ := toNat_of_lead_single single
  have characterAscii : IsAscii character := by
    rw [IsAscii, code]
    exact ascii
  rw [encodeChar_of_isAscii characterAscii, code, UInt8.ofNat_toNat]

theorem encode_cons (character : Char) (text : List Char) :
    encode (character :: text) = encodeChar character ++ encode text :=
  List.flatMap_cons

/-- What is read without gaps is what was encoded, also from inside a character. -/
theorem encode_of_scan (bytes : List UInt8) :
    (∀ text : List Char, text.map some = scan none bytes → encode text = bytes) ∧
      ∀ (unfinished : Unfinished) (begun : List UInt8) (text : List Char), unfinished.Sound →
        unfinished.BegunBy begun → text.map some = scan (some unfinished) bytes → encode text = begun ++ bytes := by
  -- A character at hand goes on, is completed or leaves a gap; only after the last is a byte read afresh.
  induction bytes with
  | nil =>
      constructor
      · intro text read
        rw [List.map_eq_nil_iff.mp read]
        rfl
      · intro unfinished begun text _ _ read
        obtain ⟨_, _, _, gap, _⟩ := List.map_eq_cons_iff.mp read
        cases gap
  | cons byte rest ih =>
      obtain ⟨restFresh, restBegun⟩ := ih
      constructor
      · intro text read
        cases sort : lead byte with
        | single character =>
            rw [scan_single sort] at read
            obtain ⟨_, later, rfl, same, readLater⟩ := List.map_eq_cons_iff.mp read
            cases same
            rw [encode_cons, encodeChar_of_lead_single sort, restFresh later readLater, List.singleton_append]
        | opening unfinished =>
            rw [scan_start sort] at read
            exact restBegun unfinished [byte] text (sound_of_lead sort) (begunBy_of_lead sort) read
        | stray =>
            rw [scan_stray sort] at read
            obtain ⟨_, _, _, gap, _⟩ := List.map_eq_cons_iff.mp read
            cases gap
      · intro unfinished begun text sound begins read
        obtain ⟨code, further, least, greatest⟩ := unfinished
        by_cases inRange : least ≤ byte.toNat ∧ byte.toNat ≤ greatest
        · cases further with
          | zero =>
              rw [scan_last inRange] at read
              obtain ⟨_, later, rfl, same, readLater⟩ := List.map_eq_cons_iff.mp read
              cases same
              rw [encode_cons, begins.finished sound inRange, restFresh later readLater, List.append_assoc,
                List.singleton_append]
          | succ further =>
              rw [scan_further inRange] at read
              have whole := restBegun _ _ text (sound.next inRange) (begins.next sound inRange) read
              rwa [List.append_assoc, List.singleton_append] at whole
        · rw [scan_refused inRange] at read
          obtain ⟨_, _, _, gap, _⟩ := List.map_eq_cons_iff.mp read
          cases gap

theorem decode?_eq_some_iff {bytes : List UInt8} {text : List Char} : decode? bytes = some text ↔ encode text = bytes := by
  constructor
  · intro decoded
    have gapless := mapM_eq_some_iff.mp decoded
    rw [List.map_id] at gapless
    exact (encode_of_scan bytes).1 text gapless.symm
  · intro encoded
    rw [← encoded]
    exact decode?_encode text

theorem decode?_eq_none_iff {bytes : List UInt8} : decode? bytes = none ↔ ∀ text, encode text ≠ bytes := by
  simp only [Option.eq_none_iff_forall_ne_some, ne_eq, decode?_eq_some_iff]

end BlockInventory.Text.Utf8
