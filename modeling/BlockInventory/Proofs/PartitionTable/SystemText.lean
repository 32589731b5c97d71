import BlockInventory.Proofs.Tables

/-!
# Partition tables as the system writes them

The system writes a heading, an empty line, and a row for each partition, with its numbers in decimal behind any
padding. What is read of such a text is for each name the count of its last row. Although the heading has as many
fields as a row, nothing is read of it.
-/

set_option autoImplicit false

namespace BlockInventory.PartitionTable

/-- A row as the system knows it. -/
structure Row where
  major : Nat
  minor : Nat
  blocks : UInt64
  name : List Char
  name_ne_nil : name ≠ []
  name_solid : ∀ character ∈ name, Text.isBlank character = false

def Row.entry (row : Row) : String × UInt64 :=
  (String.ofList row.name, row.blocks)

def heading : List Char := "major minor  #blocks  name".toList

/-- A number behind so many spaces. -/
def padded (spaces number : Nat) : List Char :=
  List.replicate spaces ' ' ++ Text.Numeral.write number

/-- The line of a row. At least one space stands between its fields. -/
inductive Row.Written (row : Row) : (line : List Char) → Prop where
  | padded (first second third : Nat) :
      Written row (padded first row.major ++
        ' ' :: (padded second row.minor ++ ' ' :: (padded third row.blocks.toNat ++ ' ' :: row.name)))

inductive LineEnd : List Char → Prop where
  | lineFeed : LineEnd ['\n']
  | carriageReturn : LineEnd ['\r', '\n']

inductive RowsWritten : (rows : List Row) → (text : List Char) → Prop where
  | nil : RowsWritten [] []
  | cons {row : Row} {rows : List Row} {line ending text : List Char} :
      row.Written line → LineEnd ending → RowsWritten rows text → RowsWritten (row :: rows) (line ++ (ending ++ text))

/-- The text of a table with these rows. -/
inductive SystemText (rows : List Row) : (text : List Char) → Prop where
  | headed {ending emptyEnding text : List Char} :
      LineEnd ending → LineEnd emptyEnding → RowsWritten rows text →
      SystemText rows (heading ++ (ending ++ (emptyEnding ++ text)))

/-- The last of the rows with this name counts this many blocks. -/
def LastRow (rows : List Row) (name : String) (blocks : UInt64) : Prop :=
  ∃ before row after, rows = before ++ row :: after ∧ row.entry = (name, blocks) ∧
    ∀ later ∈ after, String.ofList later.name ≠ name

/-! ## Lines -/

private theorem isBlank_write (number : Nat) : ∀ digit ∈ Text.Numeral.write number, Text.isBlank digit = false := by
  intro digit member
  apply Text.isBlank_of_isAlphanum
  rw [Char.isAlphanum, Text.Numeral.isDigit_of_mem_write member, Bool.or_true]

private theorem fields_padded (spaces number : Nat) :
    Text.fields (padded spaces number) = [Text.Numeral.write number] := by
  induction spaces with
  | zero => exact Text.fields_eq_singleton (Text.Numeral.write_ne_nil number) (isBlank_write number)
  | succ spaces ih =>
      have behind : Text.fields (' ' :: padded spaces number) = Text.fields (padded spaces number) :=
        @Text.fields_append_cons [] (padded spaces number) ' ' (by decide)
      rw [← ih, ← behind]
      rfl

private theorem lineFeed_not_mem_padded (spaces number : Nat) : '\n' ∉ padded spaces number := by
  intro member
  rcases List.mem_append.mp member with space | digit
  · cases List.eq_of_mem_replicate space
  · exact Text.lineFeed_not_mem_of_isBlank (isBlank_write number) digit

namespace Row.Written

variable {row : Row} {line : List Char}

theorem fields_eq (written : row.Written line) :
    Text.fields line = [Text.Numeral.write row.major, Text.Numeral.write row.minor,
      Text.Numeral.write row.blocks.toNat, row.name] := by
  have space : Text.isBlank ' ' = true := by decide
  cases written with
  | padded first second third =>
      simp only [Text.fields_append_cons space, fields_padded,
        Text.fields_eq_singleton row.name_ne_nil row.name_solid, List.singleton_append]

theorem ofLine?_eq (written : row.Written line) : ofLine? line = some row.entry := by
  simp only [ofLine?, written.fields_eq, Text.Numeral.read?_write, Option.map_some]
  rfl

theorem lineFeed_not_mem (written : row.Written line) : '\n' ∉ line := by
  have name := Text.lineFeed_not_mem_of_isBlank row.name_solid
  cases written with
  | padded first second third =>
      simp [lineFeed_not_mem_padded, name]

end Row.Written

/-- A carriage return before the end of a line makes no difference. -/
theorem LineEnd.entries_eq {line ending text : List Char} (ends : LineEnd ending) (unbroken : '\n' ∉ line) :
    ((line ++ (ending ++ text)).splitOn '\n').filterMap ofLine? =
      (ofLine? line).toList ++ (text.splitOn '\n').filterMap ofLine? := by
  have alone {piece : List Char} (whole : '\n' ∉ piece) :
      (piece.splitOn '\n').filterMap ofLine? = (ofLine? piece).toList := by
    rw [List.splitOn_eq_singleton whole, List.filterMap_cons, List.filterMap_nil]
    cases ofLine? piece <;> rfl
  cases ends with
  | lineFeed =>
      rw [List.singleton_append, filterMap_splitOn_append, alone unbroken]
  | carriageReturn =>
      have returned : ofLine? (line ++ ['\r']) = ofLine? line := by
        have fields : Text.fields (line ++ ['\r']) = Text.fields line := by
          rw [Text.fields_append_cons (by decide)]
          exact List.append_nil _
        rw [ofLine?, fields]
        rfl
      have shape : line ++ (['\r', '\n'] ++ text) = (line ++ ['\r']) ++ '\n' :: text := by simp
      rw [shape, filterMap_splitOn_append, alone (by simp [unbroken]), returned]

/-! ## Texts -/

theorem RowsWritten.entries_eq {rows : List Row} {text : List Char} (written : RowsWritten rows text) :
    (text.splitOn '\n').filterMap ofLine? = rows.map Row.entry := by
  induction written with
  | nil => rfl
  | cons line ends _ ih =>
      rw [ends.entries_eq line.lineFeed_not_mem, line.ofLine?_eq, ih]
      rfl

theorem SystemText.entries_eq {rows : List Row} {text : List Char} (written : SystemText rows text) :
    (text.splitOn '\n').filterMap ofLine? = rows.map Row.entry := by
  have headingSilent : ofLine? heading = none := by decide +kernel
  cases written with
  | @headed _ emptyEnding rest headingEnds emptyEnds rowsWritten =>
      have empty : (([] ++ (emptyEnding ++ rest)).splitOn '\n').filterMap ofLine? = rows.map Row.entry := by
        rw [emptyEnds.entries_eq List.not_mem_nil, rowsWritten.entries_eq]
        rfl
      rw [headingEnds.entries_eq (by decide +kernel), headingSilent]
      exact empty

/-- The table that is read of a text that the system wrote holds for each name the count of its last row. -/
theorem get?_ofText_iff_lastRow {rows : List Row} {text : List Char} (written : SystemText rows text) (name : String)
    (blocks : UInt64) : (ofText text).get? name = some blocks ↔ LastRow rows name blocks := by
  rw [ofText, written.entries_eq, SortedMap.get?_ofLast_eq_some_iff]
  constructor
  · rintro ⟨earlier, later, shape, absent⟩
    obtain ⟨before, others, rfl, rfl, split⟩ := List.map_eq_append_iff.mp shape
    obtain ⟨row, after, rfl, entry, rfl⟩ := List.map_eq_cons_iff.mp split
    refine ⟨before, row, after, rfl, entry, ?_⟩
    intro other member
    exact absent other.entry (List.mem_map_of_mem member)
  · rintro ⟨before, row, after, rfl, entry, absent⟩
    refine ⟨before.map Row.entry, after.map Row.entry, by simp [entry], ?_⟩
    intro later member
    obtain ⟨other, inAfter, rfl⟩ := List.mem_map.mp member
    exact absent other inAfter

def diskRow (blocks : UInt64) : Row where
  major := 8
  minor := 0
  blocks := blocks
  name := ['s', 'd', 'a']
  name_ne_nil := by decide
  name_solid := by
    have letters : ['s', 'd', 'a'].all Char.isAlphanum = true := by decide
    exact fun character member => Text.isBlank_of_isAlphanum (List.all_eq_true.mp letters character member)

def twiceText : List Char :=
  "major minor  #blocks  name\n\n   8        0          7 sda\n8 0 18446744073709551615 sda\r\n".toList

/-- Of two rows for one name the second counts, up to the greatest count of blocks. -/
theorem get?_ofText_iff_lastRow_twice :
    SystemText [diskRow 7, diskRow 18446744073709551615] twiceText ∧
      (ofText twiceText).get? "sda" = some 18446744073709551615 := by
  obtain ⟨text, written, same⟩ :
      ∃ text, SystemText [diskRow 7, diskRow 18446744073709551615] text ∧ text = twiceText :=
    ⟨_, .headed .lineFeed .lineFeed
      (.cons (.padded 3 7 9) .lineFeed (.cons (.padded 0 0 0) .carriageReturn .nil)), by decide +kernel⟩
  rw [← same]
  refine ⟨written, (get?_ofText_iff_lastRow written "sda" _).mpr ?_⟩
  exact ⟨[diskRow 7], diskRow 18446744073709551615, [], rfl, rfl, by simp⟩

end BlockInventory.PartitionTable
