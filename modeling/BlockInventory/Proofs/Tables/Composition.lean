import BlockInventory.Proofs.Tables
import Mathlib.Data.List.Basic

/-!
# Tables of several texts

The table of two texts, one below the other, is the union of their tables. Where both have an entry, the upper one
counts for mount tables and the lower one for partition tables. Lines that tell nothing may stand anywhere.
-/

set_option autoImplicit false

namespace BlockInventory

/-! ## Lines put into a text -/

/-- The text with further lines put below its last one. -/
inductive Appended (further : List Char) : (text extended : List Char) → Prop where
  | unended {text : List Char} : Appended further text (text ++ '\n' :: further)
  | ended {text : List Char} : Appended further (text ++ ['\n']) (text ++ '\n' :: further)

/-- The text with further lines put above its first line, between two of its lines, or below its last one. -/
inductive PutInto (further : List Char) : (text extended : List Char) → Prop where
  | above {text : List Char} : PutInto further text (further ++ '\n' :: text)
  | between {first second : List Char} :
      PutInto further (first ++ '\n' :: second) (first ++ '\n' :: (further ++ '\n' :: second))
  | below {text extended : List Char} : Appended further text extended → PutInto further text extended

section Entries

variable {Entry : Type} {read? : List Char → Option Entry} {further text extended : List Char}

theorem Appended.entries_eq (appended : Appended further text extended) (empty : read? [] = none) :
    (extended.splitOn '\n').filterMap read? =
      (text.splitOn '\n').filterMap read? ++ (further.splitOn '\n').filterMap read? := by
  cases appended with
  | unended => exact filterMap_splitOn_append read? text further
  | @ended text =>
      have nothing : (([] : List Char).splitOn '\n').filterMap read? = [] := by
        rw [List.splitOn_nil, List.filterMap_cons_none empty, List.filterMap_nil]
      rw [filterMap_splitOn_append, filterMap_splitOn_append, nothing, List.append_nil]

theorem PutInto.entries_eq (put : PutInto further text extended) (empty : read? [] = none)
    (silent : ∀ line ∈ further.splitOn '\n', read? line = none) :
    (extended.splitOn '\n').filterMap read? = (text.splitOn '\n').filterMap read? := by
  have nothing : (further.splitOn '\n').filterMap read? = [] := List.filterMap_eq_nil_iff.mpr silent
  cases put with
  | above => rw [filterMap_splitOn_append, nothing, List.nil_append]
  | between => simp only [filterMap_splitOn_append, nothing, List.nil_append]
  | below appended => rw [appended.entries_eq empty, nothing, List.append_nil]

end Entries

/-! ## Lines that tell nothing -/

namespace MountTable

variable {line first second text extended further : List Char}

/-- The line has fewer than two fields, or its source is no device. -/
inductive TellsNothing (line : List Char) : Prop where
  | short : (Text.fields line).length < 2 → TellsNothing line
  | elsewhere {source : List Char} {others : List (List Char)} :
      Text.fields line = source :: others → ¬deviceDirectory <+: source → TellsNothing line

theorem ofLine?_eq_none_iff : ofLine? line = none ↔ TellsNothing line := by
  unfold ofLine?
  split
  next source field further shape =>
    rw [ite_eq_right_iff, List.isPrefixOf_iff_prefix]
    constructor
    · intro silent
      refine .elsewhere shape fun beneath => ?_
      cases silent beneath
    · intro nothing beneath
      cases nothing with
      | short short =>
          rw [shape, List.length_cons, List.length_cons] at short
          omega
      | elsewhere same elsewhere =>
          rw [shape, List.cons.injEq] at same
          exact absurd (same.1 ▸ beneath) elsewhere
  next other =>
    refine iff_of_true rfl (.short ?_)
    cases shape : Text.fields line with
    | nil => simp
    | cons source fields =>
        cases fields with
        | nil => simp
        | cons field fields => exact absurd shape (other _ _ _)

theorem ofText_append (first second : List Char) :
    ofText (first ++ '\n' :: second) = (ofText first).union (ofText second) := by
  rw [ofText, filterMap_splitOn_append, SortedMap.ofFirst_append]
  rfl

theorem get?_of_appended (appended : Appended further text extended) {source mountPoint : String}
    (mounted : (ofText text).get? source = some mountPoint) : (ofText extended).get? source = some mountPoint := by
  have added : ofText extended = (ofText text).union (ofText further) := by
    rw [ofText, appended.entries_eq rfl, SortedMap.ofFirst_append]
    rfl
  rw [added, SortedMap.get?_union, mounted, Option.some_or]

theorem ofText_of_putInto (put : PutInto further text extended)
    (nothing : ∀ line ∈ further.splitOn '\n', TellsNothing line) : ofText extended = ofText text := by
  rw [ofText, put.entries_eq rfl fun line member => ofLine?_eq_none_iff.mpr (nothing line member)]
  rfl

end MountTable

namespace PartitionTable

variable {line first second text extended further : List Char}

/-- The line has not four fields, or its third field is no count of blocks. -/
inductive TellsNothing (line : List Char) : Prop where
  | miscounted : (Text.fields line).length ≠ 4 → TellsNothing line
  | uncounted {major minor numeral name : List Char} :
      Text.fields line = [major, minor, numeral, name] → Text.Numeral.read? numeral = none → TellsNothing line

theorem ofLine?_eq_none_iff : ofLine? line = none ↔ TellsNothing line := by
  unfold ofLine?
  split
  next major minor numeral name shape =>
    rw [Option.map_eq_none_iff]
    constructor
    · intro unread
      exact .uncounted shape unread
    · intro nothing
      cases nothing with
      | miscounted miscounted => simp [shape] at miscounted
      | uncounted same unread =>
          rw [shape] at same
          cases same
          exact unread
  next other =>
    refine iff_of_true rfl (.miscounted fun four => ?_)
    obtain ⟨major, minor, numeral, name, shape⟩ := List.length_eq_four.mp four
    exact other major minor numeral name shape

theorem ofText_append (first second : List Char) :
    ofText (first ++ '\n' :: second) = (ofText second).union (ofText first) := by
  rw [ofText, filterMap_splitOn_append, SortedMap.ofLast_append]
  rfl

theorem ofText_of_putInto (put : PutInto further text extended)
    (nothing : ∀ line ∈ further.splitOn '\n', TellsNothing line) : ofText extended = ofText text := by
  rw [ofText, put.entries_eq rfl fun line member => ofLine?_eq_none_iff.mpr (nothing line member)]
  rfl

end PartitionTable

/-- Tables are composed of the tables of their parts. For mount tables the upper part has precedence, so that lines
below add entries only, for partition tables the lower one; lines that tell nothing make no difference. -/
theorem ofText_composes (text further : List Char) :
    MountTable.ofText (text ++ '\n' :: further) = (MountTable.ofText text).union (MountTable.ofText further) ∧
      PartitionTable.ofText (text ++ '\n' :: further) =
        (PartitionTable.ofText further).union (PartitionTable.ofText text) ∧
      (∀ extended, Appended further text extended → ∀ source mountPoint,
        (MountTable.ofText text).get? source = some mountPoint →
          (MountTable.ofText extended).get? source = some mountPoint) ∧
      ∀ extended, PutInto further text extended →
        ((∀ line ∈ further.splitOn '\n', MountTable.TellsNothing line) →
          MountTable.ofText extended = MountTable.ofText text) ∧
        ((∀ line ∈ further.splitOn '\n', PartitionTable.TellsNothing line) →
          PartitionTable.ofText extended = PartitionTable.ofText text) := by
  refine ⟨MountTable.ofText_append text further, PartitionTable.ofText_append text further, ?_, ?_⟩
  · intro extended appended source mountPoint mounted
    exact MountTable.get?_of_appended appended mounted
  · intro extended put
    exact ⟨MountTable.ofText_of_putInto put, PartitionTable.ofText_of_putInto put⟩

def mountedText : List Char := "/dev/sda1 / ext4\n".toList

/-- A line without a device, and the heading of a partition table. -/
def foreignText : List Char := "proc /proc proc\r\nmajor minor  #blocks  name\r".toList

/-- The foreign lines change nothing, whether they stand below the mount or above it. -/
theorem ofText_composes_foreign :
    (∀ line ∈ foreignText.splitOn '\n', MountTable.TellsNothing line) ∧
      (∀ line ∈ foreignText.splitOn '\n', PartitionTable.TellsNothing line) ∧
      (MountTable.ofText mountedText).get? "/dev/sda1" = some "/" ∧
      (MountTable.ofText (mountedText ++ foreignText)).get? "/dev/sda1" = some "/" ∧
      MountTable.ofText (foreignText ++ '\n' :: mountedText) = MountTable.ofText mountedText ∧
      PartitionTable.ofText (foreignText ++ '\n' :: mountedText) = PartitionTable.ofText mountedText := by
  have noMount : ∀ line ∈ foreignText.splitOn '\n', MountTable.TellsNothing line := by
    intro line member
    have silent : ∀ line ∈ foreignText.splitOn '\n', MountTable.ofLine? line = none := by decide +kernel
    exact MountTable.ofLine?_eq_none_iff.mp (silent line member)
  have noCount : ∀ line ∈ foreignText.splitOn '\n', PartitionTable.TellsNothing line := by
    intro line member
    have silent : ∀ line ∈ foreignText.splitOn '\n', PartitionTable.ofLine? line = none := by decide +kernel
    exact PartitionTable.ofLine?_eq_none_iff.mp (silent line member)
  have mounted : (MountTable.ofText mountedText).get? "/dev/sda1" = some "/" := by decide +kernel
  obtain ⟨_, _, added, put⟩ := ofText_composes mountedText foreignText
  have below : Appended foreignText mountedText (mountedText ++ foreignText) := by
    have oneLine : mountedText = "/dev/sda1 / ext4".toList ++ ['\n'] := by decide +kernel
    rw [oneLine]
    exact .ended
  obtain ⟨mounts, counts⟩ := put _ .above
  exact ⟨noMount, noCount, mounted, added _ below _ _ mounted, mounts noMount, counts noCount⟩

end BlockInventory
