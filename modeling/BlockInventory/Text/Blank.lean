/-!
# Blank characters

The characters with the Unicode property White_Space, the text that remains when the blank ends of a text
are cut off, and the fields of a line: its maximal runs of characters that are not blank.
-/

set_option autoImplicit false

namespace BlockInventory.Text

/-- The code points with the Unicode property White_Space, as ranges with both ends included. -/
def blankRanges : List (Nat × Nat) :=
  [(0x9, 0xD), (0x20, 0x20), (0x85, 0x85), (0xA0, 0xA0), (0x1680, 0x1680), (0x2000, 0x200A),
    (0x2028, 0x2029), (0x202F, 0x202F), (0x205F, 0x205F), (0x3000, 0x3000)]

/-- A character is blank when it lies in one of the White_Space ranges. -/
def isBlank (character : Char) : Bool :=
  blankRanges.any fun (first, last) => first ≤ character.toNat && character.toNat ≤ last

/-- The text without the blank characters at its two ends. -/
def trim (text : List Char) : List Char :=
  ((text.dropWhile isBlank).reverse.dropWhile isBlank).reverse

/-- The maximal runs of characters that are not blank, from left to right. -/
def fields (line : List Char) : List (List Char) :=
  (line.splitOnP isBlank).filter (!·.isEmpty)

theorem isBlank_of_isAlphanum {character : Char} (alphanumeric : character.isAlphanum = true) :
    isBlank character = false := by
  have ranges : 48 ≤ character.toNat ∧ character.toNat ≤ 57 ∨ 65 ≤ character.toNat ∧ character.toNat ≤ 90 ∨
      97 ≤ character.toNat ∧ character.toNat ≤ 122 := by
    rcases Bool.or_eq_true_iff.mp alphanumeric with letter | digit
    · rcases Bool.or_eq_true_iff.mp letter with upper | lower
      · exact .inr (.inl (of_decide_eq_true upper))
      · obtain ⟨least, most⟩ := Bool.and_eq_true_iff.mp lower
        exact .inr (.inr ⟨of_decide_eq_true least, of_decide_eq_true most⟩)
    · obtain ⟨least, most⟩ := Bool.and_eq_true_iff.mp digit
      exact .inl ⟨of_decide_eq_true least, of_decide_eq_true most⟩
  simp [isBlank, blankRanges]
  omega

/-- The text neither begins nor ends with a blank character. -/
structure Trimmed (text : List Char) : Prop where
  first : ∀ character, text.head? = some character → isBlank character = false
  last : ∀ character, text.getLast? = some character → isBlank character = false

theorem trimmed_trim (text : List Char) : Trimmed (trim text) := by
  have unblank {rest : List Char} {character : Char} (first : (rest.dropWhile isBlank).head? = some character) :
      isBlank character = false := by
    have dropped := List.head?_dropWhile_not isBlank rest
    rwa [first] at dropped
  constructor
  · intro character first
    rw [trim, List.head?_reverse] at first
    -- What is cut off at the end leaves the beginning as it is.
    obtain ⟨_, shape⟩ := List.dropWhile_suffix (l := (text.dropWhile isBlank).reverse) isBlank
    have kept : (text.dropWhile isBlank).reverse.getLast? = some character := by
      rw [← shape, List.getLast?_append, first, Option.some_or]
    rw [List.getLast?_reverse] at kept
    exact unblank kept
  · intro character last
    rw [trim, List.getLast?_reverse] at last
    exact unblank last

theorem ne_nil_of_mem_fields {line field : List Char} (member : field ∈ fields line) : field ≠ [] := by
  simp only [fields, List.mem_filter] at member
  intro empty
  simp [empty] at member

theorem fields_append_cons {before after : List Char} {character : Char}
    (blank : isBlank character = true) :
    fields (before ++ character :: after) = fields before ++ fields after := by
  simp [fields, List.splitOnP_append_cons before after blank]

theorem not_mem_of_mem_splitOnP {α : Type} {p : α → Bool} {list piece : List α}
    (member : piece ∈ list.splitOnP p) {element : α} (inside : element ∈ piece) :
    p element = false := by
  induction list generalizing piece with
  | nil =>
      rw [List.splitOnP_nil, List.mem_singleton] at member
      subst member
      cases inside
  | cons head rest ih =>
      rw [List.splitOnP_cons_eq_if_modifyHead] at member
      split at member
      · rcases List.mem_cons.mp member with rfl | later
        · cases inside
        · exact ih later inside
      next separates =>
        obtain ⟨first, others, shape⟩ :=
          List.exists_cons_of_ne_nil (List.splitOnP_ne_nil p rest)
        rw [shape, List.modifyHead_cons] at member
        rcases List.mem_cons.mp member with rfl | later
        · rcases List.mem_cons.mp inside with rfl | deeper
          · simpa using separates
          · exact ih (shape ▸ List.mem_cons_self) deeper
        · exact ih (shape ▸ List.mem_cons_of_mem _ later) inside

theorem not_mem_of_mem_splitOn {α : Type} [BEq α] [LawfulBEq α] {separator : α} {list piece : List α}
    (member : piece ∈ list.splitOn separator) : separator ∉ piece := by
  intro inside
  have apart := not_mem_of_mem_splitOnP member inside
  rw [beq_self_eq_true] at apart
  cases apart

section Runs

variable {α : Type} {p : α → Bool} {run : List α}

theorem takeWhile_append_cons (inRun : ∀ element ∈ run, p element = true) {stop : α} (stops : p stop = false)
    (rest : List α) : (run ++ stop :: rest).takeWhile p = run := by
  rw [List.takeWhile_append_of_pos inRun, List.takeWhile_cons_of_neg (Bool.eq_false_iff.mp stops), List.append_nil]

theorem dropWhile_append_cons (inRun : ∀ element ∈ run, p element = true) {stop : α} (stops : p stop = false)
    (rest : List α) : (run ++ stop :: rest).dropWhile p = stop :: rest := by
  rw [List.dropWhile_append_of_pos inRun, List.dropWhile_cons_of_neg (Bool.eq_false_iff.mp stops)]

end Runs

theorem isBlank_of_mem_field {line field : List Char} (member : field ∈ fields line) {character : Char}
    (inside : character ∈ field) : isBlank character = false :=
  not_mem_of_mem_splitOnP (List.mem_filter.mp member).1 inside

theorem lineFeed_not_mem_of_isBlank {text : List Char} (solid : ∀ character ∈ text, isBlank character = false) :
    '\n' ∉ text := by
  intro member
  have blank := solid '\n' member
  cases blank

theorem fields_eq_singleton {text : List Char} (nonempty : text ≠ [])
    (solid : ∀ character ∈ text, isBlank character = false) : fields text = [text] := by
  rw [fields, List.splitOnP_eq_singleton solid]
  simp [nonempty]

end BlockInventory.Text
