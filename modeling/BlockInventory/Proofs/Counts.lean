import BlockInventory.Attribute
import BlockInventory.FileTree.Edit
import BlockInventory.Proofs.Tables
import BlockInventory.Proofs.Text.Numeral

/-!
# Counts in attributes and tables

One grammar decides what counts as a number, in an attribute and in a row of the partition table. They differ in what
becomes of everything else: an attribute without a number is zero, a row without one is passed over.
-/

set_option autoImplicit false

namespace BlockInventory

open Text.Numeral (Holds Writes)

namespace FileTree

variable {tree : FileTree} {path : Path}

theorem toNat_attributeCount {content : List UInt8} {number : Nat} (read : tree.readBytes path = .ok content)
    (fits : number < UInt64.size) (holds : Holds (Text.Utf8.decodeLossy content) number) :
    (tree.attributeCount path).toNat = number := by
  have told : Text.Numeral.read? (tree.attributeText path) = some (UInt64.ofNat number) := by
    rw [attributeText, read]
    exact Text.Numeral.read?_of_writes (Text.Numeral.holds_iff.mp holds) fits
  rw [attributeCount, told, Option.getD_some, UInt64.toNat_ofNat_of_lt' fits]

theorem attributeCount_eq_zero (untold : ∀ content number, tree.readBytes path = .ok content → number < UInt64.size →
    ¬Holds (Text.Utf8.decodeLossy content) number) : tree.attributeCount path = 0 := by
  have unread : Text.Numeral.read? (tree.attributeText path) = none := by
    rw [attributeText]
    cases read : tree.readBytes path with
    | error cause => rfl
    | ok content =>
        rw [Text.Numeral.read?_eq_none_iff]
        intro number fits written
        exact untold content number read fits (Text.Numeral.holds_iff.mpr written)
  rw [attributeCount, unread, Option.getD_none]

end FileTree

namespace PartitionTable

/-- The text has this line, and these texts stand above and below it. -/
inductive HasLine (line : List Char) : (above below text : List Char) → Prop where
  | only : HasLine line [] [] line
  | first {below : List Char} : HasLine line [] below (line ++ '\n' :: below)
  | last {above : List Char} : HasLine line above [] (above ++ '\n' :: line)
  | inner {above below : List Char} : HasLine line above below (above ++ '\n' :: (line ++ '\n' :: below))

variable {line above below text : List Char}

theorem HasLine.entries_eq (has : HasLine line above below text) (oneLine : '\n' ∉ line) :
    (text.splitOn '\n').filterMap ofLine? = (above.splitOn '\n').filterMap ofLine? ++
      ((ofLine? line).toList ++ (below.splitOn '\n').filterMap ofLine?) := by
  have own : (line.splitOn '\n').filterMap ofLine? = (ofLine? line).toList := by
    rw [List.splitOn_eq_singleton oneLine, List.filterMap_cons, List.filterMap_nil]
    cases ofLine? line <;> rfl
  have nothing : (([] : List Char).splitOn '\n').filterMap ofLine? = [] := rfl
  cases has with
  | only => rw [own, nothing, List.nil_append, List.append_nil]
  | first => rw [filterMap_splitOn_append, own, nothing, List.nil_append]
  | last => rw [filterMap_splitOn_append, own, nothing, List.append_nil]
  | inner => rw [filterMap_splitOn_append, filterMap_splitOn_append, own]

theorem HasLine.ofText_eq (has : HasLine line above below text) (oneLine : '\n' ∉ line) :
    ofText text = (ofText below).union
      (((ofLine? line).map fun (name, blocks) => (ofText above).insert name blocks).getD (ofText above)) := by
  rw [ofText, has.entries_eq oneLine]
  cases ofLine? line with
  | none => exact SortedMap.ofLast_append _ _
  | some row =>
      have upper : SortedMap.ofLast ((above.splitOn '\n').filterMap ofLine? ++ [row]) =
          (ofText above).insert row.1 row.2 := by
        rw [SortedMap.ofLast, List.foldl_append]
        rfl
      rw [← List.append_assoc, SortedMap.ofLast_append]
      exact congrArg (SortedMap.union _) upper

theorem ofLine?_of_fields {major minor numeral name : List Char}
    (shape : Text.fields line = [major, minor, numeral, name]) :
    ofLine? line = (Text.Numeral.read? numeral).map fun count => (String.ofList name, count) := by
  rw [ofLine?, shape]

end PartitionTable

/-- An attribute is its number if it holds one that fits and zero otherwise. A row with four fields counts exactly if its
third is such a number by itself, and the rest of the table is as without the row if it is not. -/
theorem counts_share_grammar :
    (∀ (tree : FileTree) (path : Path),
      (∀ content number, tree.readBytes path = .ok content → number < UInt64.size →
        Holds (Text.Utf8.decodeLossy content) number → (tree.attributeCount path).toNat = number) ∧
      ((∀ content number, tree.readBytes path = .ok content → number < UInt64.size →
        ¬Holds (Text.Utf8.decodeLossy content) number) → tree.attributeCount path = 0)) ∧
    ∀ line above below text major minor numeral name,
      PartitionTable.HasLine line above below text → '\n' ∉ line → Text.fields line = [major, minor, numeral, name] →
      (∀ number, number < UInt64.size → Writes numeral number →
        PartitionTable.ofText text = (PartitionTable.ofText below).union
          ((PartitionTable.ofText above).insert (String.ofList name) (UInt64.ofNat number))) ∧
      ((∀ number, number < UInt64.size → ¬Writes numeral number) →
        PartitionTable.ofText text = (PartitionTable.ofText below).union (PartitionTable.ofText above)) := by
  refine ⟨?_, ?_⟩
  · intro tree path
    exact ⟨fun _ _ => FileTree.toNat_attributeCount, FileTree.attributeCount_eq_zero⟩
  · intro line above below text major minor numeral name has oneLine shape
    rw [has.ofText_eq oneLine, PartitionTable.ofLine?_of_fields shape]
    constructor
    · intro number fits written
      rw [Text.Numeral.read?_of_writes written fits]
      rfl
    · intro unwritten
      rw [Text.Numeral.read?_eq_none_iff.mpr unwritten]
      rfl

def paddedSeven : List Char := [' '] ++ ("+007".toList ++ ['\n'])

def countedTree : FileTree :=
  FileTree.empty.put (.ofString "/size") (.file (Text.Utf8.encode paddedSeven))

/-- Zeros before a number do not matter, but the least number that is too great is read nowhere. -/
theorem counts_share_grammar_zeros :
    Writes "+007".toList 7 ∧ (countedTree.attributeCount (.ofString "/size")).toNat = 7 ∧
      countedTree.attributeCount (.ofString "/") = 0 ∧
      (PartitionTable.ofText "8 0 +007 sda".toList).get? "sda" = some 7 ∧
      (PartitionTable.ofText ("8 0 +007 sda".toList ++ '\n' :: "8 0 18446744073709551616 sda".toList)).get? "sda" =
        some 7 := by
  obtain ⟨attributes, rows⟩ := counts_share_grammar
  have written : Writes "+007".toList 7 := by
    have read : Text.Numeral.read? "+007".toList = some 7 := by decide +kernel
    exact Text.Numeral.read?_eq_some_iff.mp read
  have unwritten : ∀ number < UInt64.size, ¬Writes "18446744073709551616".toList number :=
    Text.Numeral.read?_eq_none_iff.mp (by decide +kernel)
  have counted : (countedTree.attributeCount (.ofString "/size")).toNat = 7 := by
    have held : Holds (Text.Utf8.decodeLossy (Text.Utf8.encode paddedSeven)) 7 := by
      rw [Text.Utf8.decodeLossy_encode]
      exact .among (List.forall_mem_singleton.mpr (by decide)) (List.forall_mem_singleton.mpr (by decide)) written
    exact (attributes countedTree (.ofString "/size")).1 _ 7 rfl (by decide) held
  have directory : countedTree.attributeCount (.ofString "/") = 0 := by
    apply (attributes countedTree (.ofString "/")).2
    intro content number read
    have refused : countedTree.readBytes (.ofString "/") = .error (.system .isDirectory) := rfl
    rw [refused] at read
    cases read
  have shape : Text.fields "8 0 +007 sda".toList = ["8".toList, "0".toList, "+007".toList, "sda".toList] := by
    decide +kernel
  have tooGreat : Text.fields "8 0 18446744073709551616 sda".toList =
      ["8".toList, "0".toList, "18446744073709551616".toList, "sda".toList] := by decide +kernel
  have taken : (PartitionTable.ofText "8 0 +007 sda".toList).get? "sda" = some 7 := by
    rw [(rows _ _ _ _ _ _ _ _ .only (by decide +kernel) shape).1 7 (by decide) written]
    decide +kernel
  refine ⟨written, counted, directory, taken, ?_⟩
  rw [(rows _ _ _ _ _ _ _ _ .last (by decide +kernel) tooGreat).2 unwritten, SortedMap.get?_union, taken]
  rfl

end BlockInventory
