import BlockInventory.Config.File
import BlockInventory.Proofs.Toml.PlainDocument
import BlockInventory.SortedMap
import Mathlib.Algebra.Group.Nat.Defs

/-!
# Configuration texts

Only the key `unit` of the document's own table says anything. It has to be a 64-bit word; without it the default
stands.
-/

set_option autoImplicit false

namespace BlockInventory.Config

/-- A plain document that may be a configuration. A key below a header may be called `unit`, but no table. -/
structure PlainText extends Toml.PlainDocument where
  names_ne_unit : ∀ table ∈ tables, table.name ≠ "unit"
  others_small : ∀ entry ∈ toPlainDocument.numbers, entry.1 ≠ "unit" → entry.2 ≤ 2 ^ 63 - 1

/-- The text is read, but is no configuration. -/
def Invalid (text : List Char) : Prop :=
  ofText text = .error .notToml ∨ ofText text = .error .unitOutOfRange

namespace PlainText

variable (plain : PlainText)

/-- The document's own table gives this number to `unit`. -/
def GivesUnit (number : Nat) : Prop :=
  ("unit", number) ∈ Toml.numbersOf plain.lines

def OwnUnitsFit : Prop :=
  ∀ number, plain.GivesUnit number → number < 2 ^ 64

/-- A unit below a header is a number that documents may hold. -/
def UnitsBelowFit : Prop :=
  ∀ table ∈ plain.tables, ∀ number, ("unit", number) ∈ Toml.numbersOf table.lines → number < 2 ^ 128

/-- The configuration has the unit that the document's own table gives, and the default if it gives none. -/
structure UnitCounts : Prop where
  given : ∀ number, plain.GivesUnit number → (ofText plain.text).map (·.unit.toNat) = .ok number
  default : (∀ number, ¬ plain.GivesUnit number) → (ofText plain.text).map (·.unit.toNat) = .ok 1000

end PlainText

theorem isInRange_of_lt {number : Nat} (small : number < 2 ^ 128) : Toml.isInRange number = true := by
  have lower : -Int.ofNat (Nat.pow 2 127) ≤ number :=
    Int.le_trans (Int.neg_nonpos_of_nonneg (Int.natCast_nonneg _)) (Int.natCast_nonneg _)
  have upper : (number : Int) < Int.ofNat (Nat.pow 2 128) := Int.ofNat_lt.mpr small
  simp only [Toml.isInRange, lower, upper, decide_true, Bool.and_self]

theorem ofTable_of_lookup {table : Toml.Table} {value : Toml.Value} (found : table.lookup "unit" = some value) :
    ofTable table =
      match unitOf? value with
      | some unit => .ok { unit }
      | none => .error .unitOutOfRange := by
  cases word : unitOf? value <;> simp only [ofTable, found, word]

theorem unitOf?_natCast (number : Nat) :
    unitOf? (.integer number) = if number < 2 ^ 64 then some (UInt64.ofNat number) else none := by
  have range : ((0 : Int) ≤ number ∧ (number : Int) < UInt64.size) ↔ number < 2 ^ 64 := by
    rw [and_iff_right (Int.natCast_nonneg _)]
    exact Int.ofNat_lt
  simp only [unitOf?, range, Int.toNat_natCast]

namespace PlainText

variable {plain : PlainText}

theorem lookup_unit (distinct : plain.KeysDistinct) {value : Toml.Value} :
    plain.table.lookup "unit" = some value ↔ ∃ number, plain.GivesUnit number ∧ value = .integer number := by
  have below : (plain.tables.map Toml.PlainTable.entry).lookup "unit" = none := by
    apply Toml.Table.lookup_of_fresh
    simp only [Toml.Table.keys, List.map_map, List.mem_map, not_exists, not_and]
    exact plain.names_ne_unit
  have own : (Toml.Table.keys ((Toml.numbersOf plain.lines).map Toml.entryOf)).Nodup :=
    (Toml.keys_numbers plain.lines).symm ▸ distinct.1
  rw [Toml.PlainDocument.table, List.lookup_append, below, Option.or_none, lookup_eq_some_iff_mem own, List.mem_map]
  constructor
  · rintro ⟨⟨key, number⟩, given, same⟩
    cases same
    exact ⟨number, given, rfl⟩
  · rintro ⟨number, given, rfl⟩
    exact ⟨("unit", number), given, rfl⟩

theorem ofTable_of_givesUnit (distinct : plain.KeysDistinct) {number : Nat} (given : plain.GivesUnit number) :
    ofTable plain.table =
      if number < 2 ^ 64 then .ok { unit := UInt64.ofNat number } else .error .unitOutOfRange := by
  have found := (lookup_unit distinct).mpr ⟨number, given, rfl⟩
  by_cases fits : number < 2 ^ 64
  · have word : unitOf? (.integer number) = some (UInt64.ofNat number) := (unitOf?_natCast number).trans (if_pos fits)
    rw [ofTable_of_lookup found, word, if_pos fits]
  · have noWord : unitOf? (.integer number) = none := (unitOf?_natCast number).trans (if_neg fits)
    rw [ofTable_of_lookup found, noWord, if_neg fits]

theorem ofTable_of_absent (distinct : plain.KeysDistinct) (absent : ∀ number, ¬ plain.GivesUnit number) :
    ofTable plain.table = .ok {} := by
  have missing : plain.table.lookup "unit" = none := by
    refine Option.eq_none_iff_forall_ne_some.mpr fun value found => ?_
    obtain ⟨number, given, _⟩ := (lookup_unit distinct).mp found
    exact absent number given
  rw [ofTable, missing]

theorem ofText_text (plain : PlainText) :
    ofText plain.text =
      if Toml.allInRange plain.numbers = true ∧ plain.KeysDistinct then ofTable plain.table else .error .notToml := by
  by_cases isTable : Toml.allInRange plain.numbers = true ∧ plain.KeysDistinct
  · rw [ofText, plain.ofText?_text, if_pos isTable, if_pos isTable]
  · rw [ofText, plain.ofText?_text, if_neg isTable, if_neg isTable]

theorem allInRange_numbers (own : plain.OwnUnitsFit) (below : plain.UnitsBelowFit) :
    Toml.allInRange plain.numbers = true := by
  refine List.all_eq_true.mpr fun ⟨key, number⟩ member => isInRange_of_lt ?_
  by_cases isUnit : key = "unit"
  · subst isUnit
    rcases List.mem_append.mp member with inOwn | inTables
    · exact (own number inOwn).trans (by decide)
    · obtain ⟨table, inDocument, inTable⟩ := List.mem_flatMap.mp inTables
      exact below table inDocument number inTable
  · have small := plain.others_small (key, number) member isUnit
    omega

theorem ofText_eq_ofTable (distinct : plain.KeysDistinct) (own : plain.OwnUnitsFit) (below : plain.UnitsBelowFit) :
    ofText plain.text = ofTable plain.table :=
  (ofText_text plain).trans (if_pos ⟨allInRange_numbers own below, distinct⟩)

theorem unitCounts (distinct : plain.KeysDistinct) (own : plain.OwnUnitsFit) (below : plain.UnitsBelowFit) :
    plain.UnitCounts := by
  constructor
  · intro number given
    rw [ofText_eq_ofTable distinct own below, ofTable_of_givesUnit distinct given, if_pos (own number given)]
    exact congrArg Except.ok (UInt64.toNat_ofNat_of_lt (own number given))
  · intro absent
    rw [ofText_eq_ofTable distinct own below, ofTable_of_absent distinct absent]
    rfl

theorem invalid_of_not_keysDistinct (repeats : ¬ plain.KeysDistinct) : Invalid plain.text :=
  .inl ((ofText_text plain).trans (if_neg fun isTable => repeats isTable.2))

theorem invalid_of_le {number : Nat} (given : plain.GivesUnit number) (large : 2 ^ 64 ≤ number) :
    Invalid plain.text := by
  by_cases isTable : Toml.allInRange plain.numbers = true ∧ plain.KeysDistinct
  · right
    rw [ofText_text, if_pos isTable, ofTable_of_givesUnit isTable.2 given, if_neg (Nat.not_lt.mpr large)]
  · exact .inl ((ofText_text plain).trans (if_neg isTable))

/-! ### One line -/

def unitKey : Toml.BareKey where
  letters := ['u', 'n', 'i', 't']
  letters_ne_nil := List.cons_ne_nil _ _
  letters_bare := List.all_eq_true.mp (by decide)

theorem name_unitKey : unitKey.name = "unit" := by
  decide +kernel

def ofUnit (unit : Nat) : PlainText where
  lines := [.assign unitKey unit]
  tables := []
  names_nodup := List.nodup_nil
  names_fresh := fun _ member => absurd member List.not_mem_nil
  names_ne_unit := fun _ member => absurd member List.not_mem_nil
  others_small := by
    intro entry member notUnit
    obtain rfl : entry = (unitKey.name, unit) := List.mem_singleton.mp member
    exact absurd name_unitKey notUnit

end PlainText

theorem ofText_unitLine (unit : UInt64) :
    ofText ("unit = ".toList ++ Text.Numeral.write unit.toNat ++ ['\n']) = .ok { unit } := by
  have line : "unit = ".toList ++ Text.Numeral.write unit.toNat ++ ['\n'] = (PlainText.ofUnit unit.toNat).text := by
    have key : "unit = ".toList = PlainText.unitKey.letters ++ [' ', '=', ' '] := by decide +kernel
    simp [key, PlainText.ofUnit, Toml.PlainDocument.text, Toml.PlainLine.text, Toml.assignmentLine]
  have distinct : (PlainText.ofUnit unit.toNat).KeysDistinct :=
    ⟨List.nodup_singleton _, fun _ member => absurd member List.not_mem_nil⟩
  have gives {number : Nat} : (PlainText.ofUnit unit.toNat).GivesUnit number ↔ number = unit.toNat := by
    simp [PlainText.GivesUnit, PlainText.ofUnit, Toml.numbersOf, Toml.PlainLine.numbers, PlainText.name_unitKey]
  have own : (PlainText.ofUnit unit.toNat).OwnUnitsFit := by
    intro number given
    exact gives.mp given ▸ unit.toNat_lt
  have below : (PlainText.ofUnit unit.toNat).UnitsBelowFit := fun _ member => absurd member List.not_mem_nil
  rw [line, PlainText.ofText_eq_ofTable distinct own below,
    PlainText.ofTable_of_givesUnit distinct (gives.mpr rfl), if_pos unit.toNat_lt, UInt64.ofNat_toNat]

/-- Of a plain document only the unit of its own table counts: whatever else stands in it, and in which order, the
configuration has this unit. Two such units, or one beyond a word, make it invalid. -/
theorem ofText_plain (plain : PlainText) :
    (plain.KeysDistinct → plain.OwnUnitsFit → plain.UnitsBelowFit → plain.UnitCounts) ∧
      (2 ≤ (Toml.keysOf plain.lines).count "unit" → Invalid plain.text) ∧
      ∀ number, plain.GivesUnit number → 2 ^ 64 ≤ number → Invalid plain.text := by
  refine ⟨PlainText.unitCounts, fun twice => ?_, fun number => PlainText.invalid_of_le⟩
  apply PlainText.invalid_of_not_keysDistinct
  intro distinct
  have once := List.nodup_iff_count_le_one.mp distinct.1 "unit"
  omega

namespace PlainText

def letterKey (letter : Char) (bare : Toml.isBareKey letter = true) : Toml.BareKey where
  letters := [letter]
  letters_ne_nil := List.cons_ne_nil _ _
  letters_bare := List.forall_mem_singleton.mpr bare

def otherKey : Toml.BareKey := letterKey 'n' (by decide)

def tableKey : Toml.BareKey := letterKey 't' (by decide)

theorem names_letterKeys : otherKey.name = "n" ∧ tableKey.name = "t" := by
  decide +kernel

/-- A document that gives these units in its own table, and this one below a header. -/
def ofUnits (own : List Nat) (below : Nat) : PlainText where
  lines := .comment ['u'] (List.forall_mem_singleton.mpr (by decide)) :: .assign otherKey 7 :: own.map (.assign unitKey)
  tables := [{ key := tableKey, lines := [.empty, .assign unitKey below] }]
  names_nodup := List.nodup_singleton _
  names_fresh := by
    simp [Toml.keysOf, Toml.numbersOf, Toml.PlainLine.numbers, Toml.PlainTable.name, name_unitKey, names_letterKeys,
      List.flatMap_map]
  names_ne_unit := by simp [Toml.PlainTable.name, names_letterKeys]
  others_small := by
    rintro ⟨key, number⟩ member notUnit
    obtain ⟨rfl, rfl⟩ : key = "n" ∧ number = 7 := by
      simpa [Toml.PlainDocument.numbers, Toml.numbersOf, Toml.PlainLine.numbers, name_unitKey, names_letterKeys,
        List.flatMap_map, show key ≠ "unit" from notUnit] using member
    decide

variable {own : List Nat} {below : Nat}

theorem givesUnit_ofUnits {number : Nat} : (ofUnits own below).GivesUnit number ↔ number ∈ own := by
  simp [GivesUnit, ofUnits, Toml.numbersOf, Toml.PlainLine.numbers, name_unitKey, names_letterKeys, List.flatMap_map]

theorem ownUnitsFit_ofUnits (fit : ∀ number ∈ own, number < 2 ^ 64) : (ofUnits own below).OwnUnitsFit :=
  fun number given => fit number (givesUnit_ofUnits.mp given)

theorem unitsBelowFit_ofUnits (fits : below < 2 ^ 128) : (ofUnits own below).UnitsBelowFit := by
  intro table inDocument number inTable
  obtain rfl := List.mem_singleton.mp inDocument
  obtain rfl : number = below := by
    simpa [Toml.numbersOf, Toml.PlainLine.numbers, name_unitKey, names_letterKeys] using inTable
  exact fits

end PlainText

theorem ofText_plain_ofUnits :
    (ofText (PlainText.ofUnits [1024] 3).text).map (·.unit.toNat) = .ok 1024 ∧
      (ofText (PlainText.ofUnits [] 3).text).map (·.unit.toNat) = .ok 1000 ∧
      Invalid (PlainText.ofUnits [5, 6] 3).text ∧ Invalid (PlainText.ofUnits [2 ^ 64] 3).text := by
  have counts (own : List Nat) (distinct : (PlainText.ofUnits own 3).KeysDistinct)
      (fit : ∀ number ∈ own, number < 2 ^ 64) : (PlainText.ofUnits own 3).UnitCounts :=
    (ofText_plain _).1 distinct (PlainText.ownUnitsFit_ofUnits fit) (PlainText.unitsBelowFit_ofUnits (by decide))
  refine ⟨?_, ?_, ?_, ?_⟩
  · exact (counts [1024] (by decide +kernel) (by decide)).given 1024 (PlainText.givesUnit_ofUnits.mpr (by decide))
  · refine (counts [] (by decide +kernel) (by decide)).default fun number given => ?_
    exact List.not_mem_nil (PlainText.givesUnit_ofUnits.mp given)
  · exact (ofText_plain _).2.1 (by decide +kernel)
  · exact (ofText_plain _).2.2 (2 ^ 64) (PlainText.givesUnit_ofUnits.mpr (by decide)) (Nat.le_refl _)

namespace PlainText

/-- A document that gives the unit 1024, and below a header a number that no document may hold. -/
def vast : PlainText :=
  ofUnits [1024] (2 ^ 128)

/-- Below a header, where a unit does not count, it still has to be a number that a document may hold. -/
theorem not_unitCounts_vast :
    vast.text = "#u\nn = 7\nunit = 1024\n[t]\n\nunit = 340282366920938463463374607431768211456\n".toList ∧
      vast.KeysDistinct ∧ vast.OwnUnitsFit ∧ ¬ vast.UnitCounts := by
  refine ⟨by decide +kernel, by decide +kernel, ownUnitsFit_ofUnits (by decide), fun counts => ?_⟩
  have outOfRange : Toml.allInRange vast.numbers = false := by decide +kernel
  have given := counts.given 1024 (givesUnit_ofUnits.mpr (by decide))
  rw [ofText_text, if_neg (by simp [outOfRange])] at given
  cases given

end PlainText

end BlockInventory.Config
