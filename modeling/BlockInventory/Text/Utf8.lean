/-!
# UTF-8

Characters as bytes and bytes as characters. The reader is a machine that looks at one byte at a time and
knows how many more bytes the character at hand needs and which values the next one may take. Its answer is a
list of characters with gaps: a gap stands for a longest run of bytes that begins a character but cannot be
finished, or for a single byte that begins none. Strict decoding refuses gaps; lossy decoding puts U+FFFD in
the place of each.
-/

set_option autoImplicit false

namespace BlockInventory.Text.Utf8

/-- A byte that carries six more bits of a character. -/
def trailing (bits : Nat) : UInt8 :=
  UInt8.ofNat (0x80 + bits % 64)

/-- The one to four bytes of a character. -/
def encodeChar (character : Char) : List UInt8 :=
  let code := character.toNat
  if code < 0x80 then [UInt8.ofNat code]
  else if code < 0x800 then [UInt8.ofNat (0xC0 + code / 64), trailing code]
  else if code < 0x10000 then
    [UInt8.ofNat (0xE0 + code / 4096), trailing (code / 64), trailing code]
  else
    [UInt8.ofNat (0xF0 + code / 262144), trailing (code / 4096), trailing (code / 64), trailing code]

def encode (text : List Char) : List UInt8 :=
  text.flatMap encodeChar

/-- A character of which some bytes have been read: the bits so far, how many more bytes it needs besides the
next one, and the least and greatest value that the next one may have. -/
structure Unfinished where
  code : Nat
  further : Nat
  least : Nat
  greatest : Nat

/-- What a byte means where a character may begin. -/
inductive Lead where
  | single (character : Char)
  | opening (unfinished : Unfinished)
  | stray

/-- Sorts the bytes that may begin a character by its length. The ranges of the second byte leave out overlong
forms, surrogates, and codes above U+10FFFF. -/
def lead (byte : UInt8) : Lead :=
  let value := byte.toNat
  if value < 0x80 then .single (Char.ofNat value)
  else if value < 0xC2 then .stray
  else if value < 0xE0 then .opening ⟨value - 0xC0, 0, 0x80, 0xBF⟩
  else if value < 0xF0 then
    .opening ⟨value - 0xE0, 1, if value = 0xE0 then 0xA0 else 0x80, if value = 0xED then 0x9F else 0xBF⟩
  else if value < 0xF5 then
    .opening ⟨value - 0xF0, 2, if value = 0xF0 then 0x90 else 0x80, if value = 0xF4 then 0x8F else 0xBF⟩
  else .stray

def start (byte : UInt8) : List (Option Char) × Option Unfinished :=
  match lead byte with
  | .single character => ([some character], none)
  | .opening unfinished => ([], some unfinished)
  | .stray => ([none], none)

/-- Reads a byte inside a character. A byte that does not continue it leaves a gap and is read as a beginning. -/
def continueWith (unfinished : Unfinished) (byte : UInt8) : List (Option Char) × Option Unfinished :=
  if unfinished.least ≤ byte.toNat ∧ byte.toNat ≤ unfinished.greatest then
    let code := unfinished.code * 64 + byte.toNat % 64
    match unfinished.further with
    | 0 => ([some (Char.ofNat code)], none)
    | further + 1 => ([], some ⟨code, further, 0x80, 0xBF⟩)
  else
    let (characters, next) := start byte
    (none :: characters, next)

/-- Characters and gaps of the bytes, when `state` is the character at hand. -/
def scan (state : Option Unfinished) : List UInt8 → List (Option Char)
  | [] => match state with
    | none => []
    | some _ => [none]
  | byte :: rest =>
    let (characters, next) := match state with
      | none => start byte
      | some unfinished => continueWith unfinished byte
    characters ++ scan next rest

/-- The text of the bytes, or nothing if they are no UTF-8. -/
def decode? (bytes : List UInt8) : Option (List Char) :=
  (scan none bytes).mapM id

/-- The character that stands for bytes that are no character. -/
def replacement : Char := '\uFFFD'

/-- The text of the bytes, with one replacement character for each gap. -/
def decodeLossy (bytes : List UInt8) : List Char :=
  (scan none bytes).map (·.getD replacement)

/-! ## Decoding what was encoded -/

theorem toNat_ofNat {value : Nat} (bound : value < 256) : (UInt8.ofNat value).toNat = value := by
  rw [UInt8.toNat_ofNat']
  omega

theorem toNat_trailing (bits : Nat) : (trailing bits).toNat = 0x80 + bits % 64 := by
  rw [trailing, toNat_ofNat (by omega)]

private theorem toNat_range (character : Char) :
    character.toNat < 0xD800 ∨ 0xDFFF < character.toNat ∧ character.toNat < 0x110000 :=
  character.valid

theorem scan_start {byte : UInt8} {unfinished : Unfinished} {rest : List UInt8}
    (opens : lead byte = .opening unfinished) :
    scan none (byte :: rest) = scan (some unfinished) rest := by
  simp [scan, start, opens]

theorem scan_last {code least greatest : Nat} {byte : UInt8} {rest : List UInt8}
    (inRange : least ≤ byte.toNat ∧ byte.toNat ≤ greatest) :
    scan (some ⟨code, 0, least, greatest⟩) (byte :: rest)
      = some (Char.ofNat (code * 64 + byte.toNat % 64)) :: scan none rest := by
  simp only [scan, continueWith, if_pos inRange, List.cons_append, List.nil_append]

theorem scan_further {code further least greatest : Nat} {byte : UInt8} {rest : List UInt8}
    (inRange : least ≤ byte.toNat ∧ byte.toNat ≤ greatest) :
    scan (some ⟨code, further + 1, least, greatest⟩) (byte :: rest)
      = scan (some ⟨code * 64 + byte.toNat % 64, further, 0x80, 0xBF⟩) rest := by
  simp only [scan, continueWith, if_pos inRange, List.nil_append]

theorem scan_single {byte : UInt8} {character : Char} {rest : List UInt8}
    (single : lead byte = .single character) :
    scan none (byte :: rest) = some character :: scan none rest := by
  simp [scan, start, single]

theorem scan_stray {byte : UInt8} {rest : List UInt8} (stray : lead byte = .stray) :
    scan none (byte :: rest) = none :: scan none rest := by
  simp [scan, start, stray]

/-- A byte that does not continue what has begun is read again where a character may begin. -/
theorem scan_refused {unfinished : Unfinished} {byte : UInt8} {rest : List UInt8}
    (outside : ¬(unfinished.least ≤ byte.toNat ∧ byte.toNat ≤ unfinished.greatest)) :
    scan (some unfinished) (byte :: rest) = none :: scan none (byte :: rest) := by
  simp only [scan, continueWith, if_neg outside, List.cons_append]

/-- The bytes of a character are read as that character, whatever comes after them. -/
theorem scan_encodeChar (character : Char) (rest : List UInt8) :
    scan none (encodeChar character ++ rest) = some character :: scan none rest := by
  have range := toNat_range character
  have ofCode {code : Nat} (same : code = character.toNat) : Char.ofNat code = character := by
    rw [same]
    exact Char.ofNat_toNat character
  unfold encodeChar
  simp only
  split
  next short =>
    have single : lead (UInt8.ofNat character.toNat) = .single character := by
      simp only [lead, toNat_ofNat (show character.toNat < 256 by omega), if_pos short, ofCode]
    exact scan_single single
  next =>
    split
    next =>
      have opens : lead (UInt8.ofNat (0xC0 + character.toNat / 64))
          = .opening ⟨character.toNat / 64, 0, 0x80, 0xBF⟩ := by
        simp only [lead, toNat_ofNat (show 0xC0 + character.toNat / 64 < 256 by omega)]
        rw [if_neg (by omega), if_neg (by omega), if_pos (by omega)]
        simp
      simp only [List.cons_append, List.nil_append, scan_start opens]
      rw [scan_last (by rw [toNat_trailing]; omega), toNat_trailing, ofCode (by omega)]
    next =>
      split
      next =>
        have opens : lead (UInt8.ofNat (0xE0 + character.toNat / 4096))
            = .opening ⟨character.toNat / 4096, 1, if 0xE0 + character.toNat / 4096 = 0xE0 then 0xA0 else 0x80,
                if 0xE0 + character.toNat / 4096 = 0xED then 0x9F else 0xBF⟩ := by
          simp only [lead, toNat_ofNat (show 0xE0 + character.toNat / 4096 < 256 by omega)]
          rw [if_neg (by omega), if_neg (by omega), if_neg (by omega), if_pos (by omega)]
          simp
        simp only [List.cons_append, List.nil_append, scan_start opens]
        rw [scan_further (by rw [toNat_trailing]; constructor <;> split <;> omega), scan_last (by rw [toNat_trailing]; omega),
          toNat_trailing, toNat_trailing, ofCode (by omega)]
      next =>
        have opens : lead (UInt8.ofNat (0xF0 + character.toNat / 262144))
            = .opening ⟨character.toNat / 262144, 2,
                if 0xF0 + character.toNat / 262144 = 0xF0 then 0x90 else 0x80,
                if 0xF0 + character.toNat / 262144 = 0xF4 then 0x8F else 0xBF⟩ := by
          simp only [lead, toNat_ofNat (show 0xF0 + character.toNat / 262144 < 256 by omega)]
          rw [if_neg (by omega), if_neg (by omega), if_neg (by omega), if_neg (by omega), if_pos (by omega)]
          simp
        simp only [List.cons_append, List.nil_append, scan_start opens]
        rw [scan_further (by rw [toNat_trailing]; constructor <;> split <;> omega), scan_further (by rw [toNat_trailing]; omega),
          scan_last (by rw [toNat_trailing]; omega), toNat_trailing, toNat_trailing, toNat_trailing,
          ofCode (by omega)]

theorem scan_encode_append (text : List Char) (rest : List UInt8) :
    scan none (encode text ++ rest) = text.map some ++ scan none rest := by
  induction text with
  | nil => rfl
  | cons character text ih =>
    rw [encode, List.flatMap_cons, List.append_assoc, scan_encodeChar]
    exact congrArg (some character :: ·) ih

theorem scan_encode (text : List Char) : scan none (encode text) = text.map some := by
  have whole := scan_encode_append text []
  rwa [List.append_nil, scan, List.append_nil] at whole

theorem decodeLossy_encode_append (text : List Char) (rest : List UInt8) :
    decodeLossy (encode text ++ rest) = text ++ decodeLossy rest := by
  simp [decodeLossy, scan_encode_append, List.map_map, Function.comp_def]

theorem decodeLossy_encode (text : List Char) : decodeLossy (encode text) = text := by
  simp [decodeLossy, scan_encode, List.map_map, Function.comp_def]

theorem decode?_encode (text : List Char) : decode? (encode text) = some text := by
  rw [decode?, scan_encode]
  induction text with
  | nil => rfl
  | cons character text ih => simp [ih]

/-! ## Bytes of encoded text -/

/-- A byte of a single-byte character occurs in no longer character. -/
theorem mem_encodeChar_iff {byte : UInt8} (single : byte.toNat < 0x80) {character : Char} :
    byte ∈ encodeChar character ↔ character.toNat = byte.toNat := by
  have range := toNat_range character
  have notTrailing (bits : Nat) : byte ≠ trailing bits := by
    rintro rfl
    rw [toNat_trailing] at single
    omega
  have notLeading {value : Nat} (leading : 0x80 ≤ value) (bound : value < 256) :
      byte ≠ UInt8.ofNat value := by
    rintro rfl
    rw [toNat_ofNat bound] at single
    omega
  unfold encodeChar
  simp only
  split
  next short =>
    rw [List.mem_singleton]
    constructor
    · rintro rfl
      rw [toNat_ofNat (by omega)]
    · intro same
      rw [same, UInt8.ofNat_toNat]
  next =>
    split
    next =>
      have leading := notLeading (show 0x80 ≤ 0xC0 + character.toNat / 64 by omega) (by omega)
      simp only [List.mem_cons, List.not_mem_nil, notTrailing, leading, or_false, false_iff]
      omega
    next =>
      split
      next =>
        have leading := notLeading (show 0x80 ≤ 0xE0 + character.toNat / 4096 by omega) (by omega)
        simp only [List.mem_cons, List.not_mem_nil, notTrailing, leading, or_false, false_iff]
        omega
      next =>
        have leading := notLeading (show 0x80 ≤ 0xF0 + character.toNat / 262144 by omega) (by omega)
        simp only [List.mem_cons, List.not_mem_nil, notTrailing, leading, or_false, false_iff]
        omega

theorem encodeChar_ne_nil (character : Char) : encodeChar character ≠ [] := by
  unfold encodeChar
  simp only
  repeat' split
  all_goals exact List.cons_ne_nil _ _

theorem zero_mem_encode_iff {text : List Char} : 0 ∈ encode text ↔ '\x00' ∈ text := by
  rw [encode, List.mem_flatMap]
  simp only [mem_encodeChar_iff (show (0 : UInt8).toNat < 0x80 by decide)]
  constructor
  · rintro ⟨character, member, code⟩
    have zero : character = '\x00' := Char.toNat_inj.mp code
    exact zero ▸ member
  · intro member
    exact ⟨_, member, rfl⟩

theorem encode_append (text further : List Char) : encode (text ++ further) = encode text ++ encode further :=
  List.flatMap_append

theorem encode_ne_nil {text : List Char} (nonempty : text ≠ []) : encode text ≠ [] := by
  obtain ⟨character, rest, rfl⟩ := List.exists_cons_of_ne_nil nonempty
  rw [encode, List.flatMap_cons]
  exact List.append_ne_nil_of_left_ne_nil (encodeChar_ne_nil character) _

/-- What has begun leaves at least a gap. -/
theorem scan_some_ne_nil (unfinished : Unfinished) (bytes : List UInt8) : scan (some unfinished) bytes ≠ [] := by
  induction bytes generalizing unfinished with
  | nil => exact List.cons_ne_nil _ _
  | cons byte rest ih =>
      obtain ⟨code, further, least, greatest⟩ := unfinished
      by_cases inRange : least ≤ byte.toNat ∧ byte.toNat ≤ greatest
      · cases further with
        | zero =>
            rw [scan_last inRange]
            exact List.cons_ne_nil _ _
        | succ further =>
            rw [scan_further inRange]
            exact ih _
      · rw [scan_refused inRange]
        exact List.cons_ne_nil _ _

theorem decodeLossy_ne_nil {bytes : List UInt8} (nonempty : bytes ≠ []) : decodeLossy bytes ≠ [] := by
  obtain ⟨byte, rest, rfl⟩ := List.exists_cons_of_ne_nil nonempty
  have characters : scan none (byte :: rest) ≠ [] := by
    cases sort : lead byte with
    | single character =>
        rw [scan_single sort]
        exact List.cons_ne_nil _ _
    | opening unfinished =>
        rw [scan_start sort]
        exact scan_some_ne_nil unfinished rest
    | stray =>
        rw [scan_stray sort]
        exact List.cons_ne_nil _ _
  exact fun empty => characters (List.map_eq_nil_iff.mp empty)

end BlockInventory.Text.Utf8
