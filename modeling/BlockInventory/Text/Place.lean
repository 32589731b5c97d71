import BlockInventory.Text.Utf8

/-!
# Places in a text

A place counts bytes from the beginning of a text. Any of the bytes can be looked at, but the text can be cut only where
no character is cut in two. What cannot be done is refused.
-/

set_option autoImplicit false

namespace BlockInventory.Text

inductive Refusal where
  | noByte (place : Nat)
  | noCut (place : Nat)
  | reversed (start stop : Nat)
  deriving DecidableEq, Repr

/-- No character lies on both sides of the place. -/
def IsBoundary (text : List Char) (place : Nat) : Prop :=
  ∃ before behind, text = before ++ behind ∧ (Utf8.encode before).length = place

def byteAt (bytes : List UInt8) (place : Nat) : Except Refusal UInt8 :=
  match bytes[place]? with
  | some byte => .ok byte
  | none => .error (.noByte place)

def bytesBetween (bytes : List UInt8) (start stop : Nat) : Except Refusal (List UInt8) :=
  if stop < start then .error (.reversed start stop)
  else if bytes.length < stop then .error (.noByte stop)
  else .ok ((bytes.drop start).take (stop - start))

theorem byteAt_eq {bytes : List UInt8} {place : Nat} (inside : place < bytes.length) :
    byteAt bytes place = .ok bytes[place] := by
  rw [byteAt, List.getElem?_eq_getElem inside]

theorem bytesBetween_eq {bytes : List UInt8} {start stop : Nat} (ordered : start ≤ stop)
    (inside : stop ≤ bytes.length) :
    bytesBetween bytes start stop = .ok ((bytes.drop start).take (stop - start)) := by
  rw [bytesBetween, if_neg (Nat.not_lt.mpr ordered), if_neg (Nat.not_lt.mpr inside)]

theorem bytesBetween_of_drop {bytes : List UInt8} {place : Nat} {first second third : UInt8} {rest : List UInt8}
    (behind : (bytes.drop place).tail = first :: second :: third :: rest) :
    bytesBetween bytes (place + 1) (place + 4) = .ok [first, second, third] := by
  rw [List.tail_drop] at behind
  have inside : place + 4 ≤ bytes.length := by
    have count := congrArg List.length behind
    simp only [List.length_drop, List.length_cons] at count
    omega
  have three : place + 4 - (place + 1) = 3 := by omega
  rw [bytesBetween_eq (by omega) inside, three, behind]
  rfl

/-- The text before and behind a place. -/
def cut? : (text : List Char) → (place : Nat) → Option (List Char × List Char)
  | [], place => if place = 0 then some ([], []) else none
  | character :: rest, place =>
    let width := (Utf8.encodeChar character).length
    if place = 0 then some ([], character :: rest)
    else if width ≤ place then
      (cut? rest (place - width)).map fun (before, behind) => (character :: before, behind)
    else none

def slice (text : List Char) (start stop : Nat) : Except Refusal (List Char) :=
  if stop < start then .error (.reversed start stop)
  else match cut? text start with
    | none => .error (.noCut start)
    | some (_, behind) => match cut? behind (stop - start) with
      | none => .error (.noCut stop)
      | some (between, _) => .ok between

private theorem length_encode_cons (character : Char) (text : List Char) :
    (Utf8.encode (character :: text)).length =
      (Utf8.encodeChar character).length + (Utf8.encode text).length := by
  rw [Utf8.encode, List.flatMap_cons, List.length_append]
  rfl

private theorem length_encodeChar_pos (character : Char) : 0 < (Utf8.encodeChar character).length :=
  List.length_pos_iff.mpr (Utf8.encodeChar_ne_nil character)

theorem cut?_append (before behind : List Char) :
    cut? (before ++ behind) (Utf8.encode before).length = some (before, behind) := by
  induction before with
  | nil => cases behind <;> rfl
  | cons character before ih =>
      have width := length_encodeChar_pos character
      have rest : (Utf8.encode (character :: before)).length - (Utf8.encodeChar character).length =
          (Utf8.encode before).length := by
        rw [length_encode_cons, Nat.add_sub_cancel_left]
      have atLeast : (Utf8.encodeChar character).length ≤ (Utf8.encode (character :: before)).length := by
        rw [length_encode_cons]
        exact Nat.le_add_right _ _
      have beyond : (Utf8.encode (character :: before)).length ≠ 0 := by omega
      simp only [List.cons_append, cut?, if_neg beyond, if_pos atLeast, rest, ih, Option.map_some]

theorem cut?_eq_some_iff {text before behind : List Char} {place : Nat} :
    cut? text place = some (before, behind) ↔ text = before ++ behind ∧ (Utf8.encode before).length = place := by
  constructor
  · intro cut
    induction text generalizing place before with
    | nil =>
        simp only [cut?] at cut
        split at cut
        next zero =>
          cases cut
          exact ⟨rfl, zero.symm⟩
        next => cases cut
    | cons character rest ih =>
        simp only [cut?] at cut
        split at cut
        next zero =>
          cases cut
          exact ⟨rfl, zero.symm⟩
        next =>
          split at cut
          next atLeast =>
            obtain ⟨⟨first, last⟩, cutRest, same⟩ := Option.map_eq_some_iff.mp cut
            cases same
            obtain ⟨shape, width⟩ := ih cutRest
            exact ⟨congrArg (character :: ·) shape, by rw [length_encode_cons, width, Nat.add_sub_cancel' atLeast]⟩
          next => cases cut
  · intro split
    obtain ⟨rfl, rfl⟩ := split
    exact cut?_append before behind

/-- Whatever is cut out of a text lies between two of its boundaries. -/
theorem slice_eq_ok_iff {text between : List Char} {start stop : Nat} :
    slice text start stop = .ok between ↔
      ∃ before behind, text = before ++ (between ++ behind) ∧ (Utf8.encode before).length = start ∧
        start + (Utf8.encode between).length = stop := by
  constructor
  · intro sliced
    simp only [slice] at sliced
    split at sliced
    next => cases sliced
    next ordered =>
      split at sliced
      next => cases sliced
      next before rest cutStart =>
        split at sliced
        next => cases sliced
        next inner behind cutStop =>
          cases sliced
          obtain ⟨shape, first⟩ := cut?_eq_some_iff.mp cutStart
          obtain ⟨inside, second⟩ := cut?_eq_some_iff.mp cutStop
          exact ⟨before, behind, by rw [shape, inside], first, by omega⟩
  · intro parts
    obtain ⟨before, behind, rfl, rfl, rfl⟩ := parts
    rw [slice, if_neg (Nat.not_lt.mpr (Nat.le_add_right _ _))]
    simp only [Nat.add_sub_cancel_left, cut?_append]

theorem isBoundary_of_slice {text between : List Char} {start stop : Nat} (sliced : slice text start stop = .ok between) :
    IsBoundary text start ∧ IsBoundary text stop := by
  obtain ⟨before, behind, rfl, first, second⟩ := slice_eq_ok_iff.mp sliced
  refine ⟨⟨before, between ++ behind, rfl, first⟩, before ++ between, behind, by simp, ?_⟩
  rw [Utf8.encode_append, List.length_append, first, second]

/-! ## Characters of one byte -/

theorem encodeChar_eq_singleton {byte : UInt8} (single : byte.toNat < 0x80) {character : Char}
    (code : character.toNat = byte.toNat) : Utf8.encodeChar character = [byte] := by
  rw [Utf8.encodeChar, if_pos (code ▸ single), code, UInt8.ofNat_toNat]

theorem encode_cons_of_code {byte : UInt8} (single : byte.toNat < 0x80) {character : Char}
    (code : character.toNat = byte.toNat) (text : List Char) :
    Utf8.encode (character :: text) = byte :: Utf8.encode text := by
  rw [Utf8.encode, List.flatMap_cons, encodeChar_eq_singleton single code]
  rfl

/-- A byte that can only be a character of its own parts the text into what lies before and behind it. -/
theorem exists_parts_of_encode {byte : UInt8} (single : byte.toNat < 0x80) {text : List Char} {front back : List UInt8}
    (bytes : Utf8.encode text = front ++ byte :: back) :
    ∃ before character behind, text = before ++ character :: behind ∧ character.toNat = byte.toNat ∧
      Utf8.encode before = front ∧ Utf8.encode behind = back := by
  induction text generalizing front with
  | nil => simp [Utf8.encode] at bytes
  | cons character rest ih =>
      have first : Utf8.encode (character :: rest) = Utf8.encodeChar character ++ Utf8.encode rest := List.flatMap_cons
      have later {front : List UInt8} (inRest : Utf8.encode rest = front ++ byte :: back) :
          ∃ before inner behind, character :: rest = before ++ inner :: behind ∧ inner.toNat = byte.toNat ∧
            Utf8.encode before = Utf8.encodeChar character ++ front ∧ Utf8.encode behind = back := by
        obtain ⟨before, inner, behind, shape, code, isFront, isBack⟩ := ih inRest
        refine ⟨character :: before, inner, behind, congrArg (character :: ·) shape, code, ?_, isBack⟩
        rw [← isFront]
        exact List.flatMap_cons
      rw [first] at bytes
      rcases List.append_eq_append_iff.mp bytes with ⟨further, isFront, inRest⟩ | ⟨further, isChar, isBack⟩
      · rw [isFront]
        exact later inRest
      · cases further with
        | nil =>
            have inRest : Utf8.encode rest = [] ++ byte :: back := isBack.symm
            have whole := later inRest
            rwa [List.append_nil, isChar, List.append_nil] at whole
        | cons other further =>
            rw [List.cons_append, List.cons.injEq] at isBack
            obtain ⟨rfl, isBack⟩ := isBack
            have member : byte ∈ Utf8.encodeChar character := isChar ▸ List.mem_append_right _ List.mem_cons_self
            have code := (Utf8.mem_encodeChar_iff single).mp member
            rw [encodeChar_eq_singleton single code, List.singleton_eq_append_iff] at isChar
            rcases isChar with ⟨rfl, only⟩ | ⟨_, nothing⟩
            · cases only
              exact ⟨[], character, rest, rfl, code, rfl, isBack.symm⟩
            · cases nothing

theorem exists_cons_of_encode {byte : UInt8} (single : byte.toNat < 0x80) {text : List Char} {back : List UInt8}
    (bytes : Utf8.encode text = byte :: back) :
    ∃ character behind, text = character :: behind ∧ character.toNat = byte.toNat ∧ Utf8.encode behind = back := by
  have whole : Utf8.encode text = [] ++ byte :: back := bytes
  obtain ⟨before, character, behind, rfl, code, isFront, isBack⟩ := exists_parts_of_encode single whole
  cases before with
  | nil => exact ⟨character, behind, rfl, code, isBack⟩
  | cons first before => exact absurd isFront (Utf8.encode_ne_nil (List.cons_ne_nil _ _))

end BlockInventory.Text
