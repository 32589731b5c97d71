import BlockInventory.Text.Blank
import BlockInventory.Text.Numeral
import Mathlib.Data.List.Induction

/-!
# The grammar of numerals

A numeral is one or more decimal digits, with at most one plus sign before them, and each further digit makes the number
ten times as great and adds its own value. A text is read as a word exactly if it is a numeral whose number fits in the
word, whatever its length and however many zeros stand first.
-/

set_option autoImplicit false

namespace BlockInventory.Text

namespace Numeral

/-- Digits, the most significant first, and their number. -/
inductive Digits : (digits : List Char) → (number : Nat) → Prop where
  | one {digit : Nat} : digit < 10 → Digits [digit.digitChar] digit
  | further {digits : List Char} {number digit : Nat} :
      Digits digits number → digit < 10 → Digits (digits ++ [digit.digitChar]) (10 * number + digit)

inductive Writes : (text : List Char) → (number : Nat) → Prop where
  | unsigned {digits : List Char} {number : Nat} : Digits digits number → Writes digits number
  | signed {digits : List Char} {number : Nat} : Digits digits number → Writes ('+' :: digits) number

private theorem digitChar_facts : ∀ digit < 10,
    digit.digitChar.isDigit = true ∧ digit.digitChar.toNat - '0'.toNat = digit := by
  decide

private theorem exists_digitChar {character : Char} (isDigit : character.isDigit = true) :
    ∃ digit < 10, digit.digitChar = character := by
  have digitChars : ∀ digit < 10, digit.digitChar = Char.ofNat (48 + digit) := by decide
  have range : 48 ≤ character.toNat ∧ character.toNat ≤ 57 := by
    obtain ⟨least, most⟩ := Bool.and_eq_true_iff.mp isDigit
    exact ⟨of_decide_eq_true least, of_decide_eq_true most⟩
  have small : character.toNat - 48 < 10 := by omega
  have code : 48 + (character.toNat - 48) = character.toNat := by omega
  exact ⟨character.toNat - 48, small, by rw [digitChars _ small, code, Char.ofNat_toNat]⟩

private theorem ofDigitChars_append_digitChar (digits : List Char) {digit : Nat} (small : digit < 10) :
    Nat.ofDigitChars 10 (digits ++ [digit.digitChar]) 0 = 10 * Nat.ofDigitChars 10 digits 0 + digit := by
  simp only [Nat.ofDigitChars, List.foldl_append, List.foldl_cons, List.foldl_nil, (digitChar_facts digit small).2]

theorem digits_iff {digits : List Char} {number : Nat} : Digits digits number ↔ ofDigits? digits = some number := by
  rw [ofDigits?_eq_some_iff]
  constructor
  · intro written
    induction written with
    | @one digit small =>
        have value := ofDigitChars_append_digitChar [] small
        refine ⟨List.cons_ne_nil _ _, ?_, by simpa using value⟩
        intro character member
        rw [List.mem_singleton.mp member]
        exact (digitChar_facts digit small).1
    | @further digits number digit _ small ih =>
        obtain ⟨_, areDigits, rfl⟩ := ih
        refine ⟨by simp, ?_, ofDigitChars_append_digitChar digits small⟩
        intro character member
        rcases List.mem_append.mp member with earlier | last
        · exact areDigits character earlier
        · rw [List.mem_singleton.mp last]
          exact (digitChar_facts digit small).1
  · intro read
    obtain ⟨nonempty, areDigits, rfl⟩ := read
    induction digits using List.reverseRecOn with
    | nil => exact absurd rfl nonempty
    | append_singleton digits last ih =>
        obtain ⟨digit, small, rfl⟩ := exists_digitChar (areDigits last (by simp))
        rw [ofDigitChars_append_digitChar digits small]
        cases digits with
        | nil => simpa [Nat.ofDigitChars] using Digits.one small
        | cons first rest =>
            refine .further (ih (List.cons_ne_nil _ _) fun character member => ?_) small
            exact areDigits character (List.mem_append_left _ member)

private theorem unsigned_of_digits {digits : List Char} {number : Nat} (written : Digits digits number) :
    unsigned digits = digits := by
  obtain ⟨_, areDigits, _⟩ := ofDigits?_eq_some_iff.mp (digits_iff.mp written)
  unfold unsigned
  split
  next =>
    have plus := areDigits '+' List.mem_cons_self
    cases plus
  next => rfl

theorem writes_iff {text : List Char} {number : Nat} : Writes text number ↔ ofDigits? (unsigned text) = some number := by
  constructor
  · intro written
    cases written with
    | unsigned digits => rw [unsigned_of_digits digits, digits_iff.mp digits]
    | signed digits => exact digits_iff.mp digits
  · intro read
    unfold unsigned at read
    split at read
    next => exact .signed (digits_iff.mpr read)
    next => exact .unsigned (digits_iff.mpr read)

/-- A word is read of a text exactly if the text is a numeral of its number. -/
theorem read?_eq_some_iff {text : List Char} {word : UInt64} : read? text = some word ↔ Writes text word.toNat := by
  rw [read?_eq_some_iff_ofDigits?, writes_iff]

theorem read?_of_writes {text : List Char} {number : Nat} (written : Writes text number) (fits : number < UInt64.size) :
    read? text = some (UInt64.ofNat number) := by
  rw [read?_eq_some_iff, UInt64.toNat_ofNat_of_lt' fits]
  exact written

theorem read?_eq_none_iff {text : List Char} : read? text = none ↔ ∀ number < UInt64.size, ¬Writes text number := by
  constructor
  · intro unread number fits written
    rw [read?_of_writes written fits] at unread
    cases unread
  · intro unwritten
    rw [Option.eq_none_iff_forall_ne_some]
    intro word read
    exact unwritten word.toNat word.toNat_lt_size (read?_eq_some_iff.mp read)

theorem Digits.ne_nil {digits : List Char} {number : Nat} (written : Digits digits number) : digits ≠ [] :=
  (ofDigits?_eq_some_iff.mp (digits_iff.mp written)).1

theorem Digits.isBlank_of_mem {digits : List Char} {number : Nat} (written : Digits digits number) :
    ∀ digit ∈ digits, isBlank digit = false := by
  obtain ⟨_, areDigits, _⟩ := ofDigits?_eq_some_iff.mp (digits_iff.mp written)
  intro digit member
  apply isBlank_of_isAlphanum
  rw [Char.isAlphanum, areDigits digit member, Bool.or_true]

theorem Writes.ne_nil {text : List Char} {number : Nat} (written : Writes text number) : text ≠ [] := by
  cases written with
  | unsigned digits => exact digits.ne_nil
  | signed => exact List.cons_ne_nil _ _

theorem Writes.isBlank_of_mem {text : List Char} {number : Nat} (written : Writes text number) :
    ∀ character ∈ text, isBlank character = false := by
  cases written with
  | unsigned digits => exact digits.isBlank_of_mem
  | signed digits => exact List.forall_mem_cons.mpr ⟨by decide, digits.isBlank_of_mem⟩

end Numeral

/-! ## Numerals among blank characters -/

theorem exists_trim (text : List Char) :
    ∃ front back, text = front ++ (trim text ++ back) ∧ (∀ character ∈ front, isBlank character = true) ∧
      ∀ character ∈ back, isBlank character = true := by
  refine ⟨text.takeWhile isBlank, ((text.dropWhile isBlank).reverse.takeWhile isBlank).reverse, ?_, ?_, ?_⟩
  · have ends : (text.dropWhile isBlank) =
        trim text ++ ((text.dropWhile isBlank).reverse.takeWhile isBlank).reverse := by
      rw [trim, ← List.reverse_append, List.takeWhile_append_dropWhile, List.reverse_reverse]
    rw [← ends, List.takeWhile_append_dropWhile]
  · exact List.all_eq_true.mp List.all_takeWhile
  · intro character member
    exact List.all_eq_true.mp List.all_takeWhile character (List.mem_reverse.mp member)

private theorem dropWhile_append_solid {blank solid : List Char} (rest : List Char)
    (areBlank : ∀ character ∈ blank, isBlank character = true) (nonempty : solid ≠ [])
    (areSolid : ∀ character ∈ solid, isBlank character = false) :
    (blank ++ (solid ++ rest)).dropWhile isBlank = solid ++ rest := by
  obtain ⟨first, others, rfl⟩ := List.exists_cons_of_ne_nil nonempty
  exact dropWhile_append_cons areBlank (areSolid first List.mem_cons_self) (others ++ rest)

theorem trim_append {front core back : List Char} (blankFront : ∀ character ∈ front, isBlank character = true)
    (blankBack : ∀ character ∈ back, isBlank character = true) (nonempty : core ≠ [])
    (solid : ∀ character ∈ core, isBlank character = false) : trim (front ++ (core ++ back)) = core := by
  have backward : (core ++ back).reverse = back.reverse ++ (core.reverse ++ []) := by simp
  rw [trim, dropWhile_append_solid back blankFront nonempty solid, backward,
    dropWhile_append_solid [] (by simpa using blankBack) (by simpa using nonempty) (by simpa using solid),
    List.append_nil, List.reverse_reverse]

/-- The text is a numeral with nothing but blank characters before and behind it. -/
inductive Numeral.Holds : (text : List Char) → (number : Nat) → Prop where
  | among {front numeral back : List Char} {number : Nat} :
      (∀ character ∈ front, isBlank character = true) → (∀ character ∈ back, isBlank character = true) →
      Writes numeral number → Holds (front ++ (numeral ++ back)) number

theorem Numeral.holds_iff {text : List Char} {number : Nat} : Holds text number ↔ Writes (trim text) number := by
  constructor
  · intro holds
    cases holds with
    | among blankFront blankBack written =>
        rwa [trim_append blankFront blankBack written.ne_nil written.isBlank_of_mem]
  · intro written
    obtain ⟨front, back, shape, blankFront, blankBack⟩ := exists_trim text
    rw [shape]
    exact .among blankFront blankBack written

end BlockInventory.Text
