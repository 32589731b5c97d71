import BlockInventory.Proofs.Toml.Assignment
import Mathlib.Data.List.Nodup

/-!
# Plain documents

Documents whose lines are empty, hold a comment or give a number to a bare key, and may have such lines below headers
with bare names at their end. What is read of a line does not depend on the other lines, and a key belongs to the
last header before it.
-/

set_option autoImplicit false

namespace BlockInventory.Toml

inductive PlainLine where
  | empty
  | comment (text : List Char) (printable : ∀ character ∈ text, 0x20 ≤ character.toNat ∧ character.toNat ≤ 0x7E)
  | assign (key : BareKey) (number : Nat)

namespace PlainLine

def text : PlainLine → List Char
  | empty => ['\n']
  | comment text _ => '#' :: (text ++ ['\n'])
  | assign key number => assignmentLine key number

def numbers : PlainLine → List (String × Nat)
  | assign key number => [(key.name, number)]
  | _ => []

end PlainLine

/-- The numbers that lines give to keys, in their order. -/
def numbersOf (lines : List PlainLine) : List (String × Nat) :=
  lines.flatMap PlainLine.numbers

def keysOf (lines : List PlainLine) : List String :=
  (numbersOf lines).map Prod.fst

/-- A header and the lines below it. -/
structure PlainTable where
  key : BareKey
  lines : List PlainLine

namespace PlainTable

variable (table : PlainTable)

def name : String :=
  table.key.name

def header : List Char :=
  '[' :: (table.key.letters ++ [']', '\n'])

def text : List Char :=
  table.header ++ table.lines.flatMap PlainLine.text

end PlainTable

structure PlainDocument where
  lines : List PlainLine
  tables : List PlainTable
  names_nodup : (tables.map PlainTable.name).Nodup
  names_fresh : ∀ table ∈ tables, table.name ∉ keysOf lines

namespace PlainDocument

variable (document : PlainDocument)

def text : List Char :=
  document.lines.flatMap PlainLine.text ++ document.tables.flatMap PlainTable.text

/-- All numbers in the document, also those below headers. -/
def numbers : List (String × Nat) :=
  numbersOf document.lines ++ document.tables.flatMap fun table => numbersOf table.lines

/-- No key stands twice in the document's own table or in one below a header. -/
def KeysDistinct : Prop :=
  (keysOf document.lines).Nodup ∧ ∀ table ∈ document.tables, (keysOf table.lines).Nodup

instance : Decidable document.KeysDistinct :=
  inferInstanceAs (Decidable (_ ∧ _))

end PlainDocument

/-! ## Statements of a plain document -/

namespace Statement

/-- A text of which this is read, whatever follows it: these statements, or nothing if it holds a number that does
not fit. -/
structure Reads (text : List Char) (fits : Bool) (statements : List Statement) : Prop where
  unmarked : text.head? ≠ some '\uFEFF'
  readLines_eq : ∃ lines ≤ text.length, ∀ most left rest,
    readLines most (left + lines) (text ++ rest) =
      if fits then (readLines most left rest).map (statements ++ ·) else none

namespace Reads

theorem nil : Reads [] true [] where
  unmarked := by simp
  readLines_eq := ⟨0, Nat.le_refl 0, fun most left rest => by simp⟩

theorem append {first second : List Char} {firstFits secondFits : Bool} {firstRead secondRead : List Statement}
    (reads : Reads first firstFits firstRead) (secondReads : Reads second secondFits secondRead) :
    Reads (first ++ second) (firstFits && secondFits) (firstRead ++ secondRead) where
  unmarked := by
    rcases first with _ | ⟨character, others⟩
    · exact secondReads.unmarked
    · exact reads.unmarked
  readLines_eq := by
    obtain ⟨lines, bound, eq⟩ := reads.readLines_eq
    obtain ⟨secondLines, secondBound, secondEq⟩ := secondReads.readLines_eq
    refine ⟨secondLines + lines, ?_, fun most left rest => ?_⟩
    · rw [List.length_append]
      omega
    · rw [List.append_assoc, ← Nat.add_assoc, eq, secondEq]
      cases firstFits <;> cases secondFits <;> simp [Function.comp_def]

theorem flatMap {Part : Type} {text : Part → List Char} {fits : Part → Bool} {statements : Part → List Statement}
    (reads : ∀ part, Reads (text part) (fits part) (statements part)) (parts : List Part) :
    Reads (parts.flatMap text) (parts.all fits) (parts.flatMap statements) := by
  induction parts with
  | nil => exact .nil
  | cons part parts ih => exact (reads part).append ih

theorem ofText?_eq {text : List Char} {fits : Bool} {statements : List Statement}
    (reads : Reads text fits statements) : ofText? text = if fits then some statements else none := by
  obtain ⟨lines, bound, eq⟩ := reads.readLines_eq
  have unmarked : dropByteOrderMark text = text := by
    unfold dropByteOrderMark
    split
    next => exact absurd rfl reads.unmarked
    next => rfl
  have whole := eq text.length (text.length - lines) []
  have ended (left : Nat) : readLines text.length left [] = some [] := by cases left <;> rfl
  rw [Nat.sub_add_cancel bound, List.append_nil, ended, Option.map_some, List.append_nil] at whole
  rw [ofText?, unmarked, whole]

end Reads

end Statement

/-- The statement that gives a number to a key. -/
def assignmentOf (entry : String × Nat) : Statement :=
  .assign [entry.1] (.integer entry.2)

def allInRange (numbers : List (String × Nat)) : Bool :=
  numbers.all fun entry => isInRange entry.2

open Statement (Reads)

theorem Statement.Reads.of_lineEnd? {text : List Char} (unmarked : text.head? ≠ some '\uFEFF') (nonempty : text ≠ [])
    (ends : ∀ rest, lineEnd? (text ++ rest) = some rest) : Reads text true [] where
  unmarked := unmarked
  readLines_eq := by
    refine ⟨1, List.length_pos_iff.mpr nonempty, fun most left rest => ?_⟩
    rw [readLines_of_lineEnd? (List.append_ne_nil_of_left_ne_nil nonempty rest) (ends rest)]
    simp

theorem PlainLine.reads (line : PlainLine) :
    Reads line.text (allInRange line.numbers) (line.numbers.map assignmentOf) := by
  cases line with
  | empty => exact .of_lineEnd? (by decide) (List.cons_ne_nil _ _) fun rest => rfl
  | comment text printable =>
      have inLine : ∀ character ∈ text, isLineCharacter character = true := by
        intro character member
        obtain ⟨lower, upper⟩ := printable character member
        have notDelete : character.toNat ≠ 0x7F := by omega
        simp [isLineCharacter, lower, notDelete]
      refine .of_lineEnd? (by simp [PlainLine.text]) (List.cons_ne_nil _ _) fun rest => ?_
      have opened : skipComment (skipSpace ('#' :: (text ++ ['\n'] ++ rest))) =
          (text ++ ['\n'] ++ rest).dropWhile isLineCharacter := rfl
      have skipped : (text ++ ['\n'] ++ rest).dropWhile isLineCharacter = '\n' :: rest := by
        rw [List.append_assoc]
        exact Text.dropWhile_append_cons inLine (by decide) rest
      rw [PlainLine.text, List.cons_append, lineEnd?, opened, skipped]
      rfl
  | assign key number =>
      obtain ⟨first, others, shape, bare⟩ := exists_assignmentLine_eq_cons key number
      refine ⟨?_, 1, ?_, fun most left rest => ?_⟩
      · rw [PlainLine.text, shape]
        intro marked
        cases marked
        cases bare
      · rw [PlainLine.text, shape]
        exact Nat.le_add_left 1 _
      · rw [PlainLine.text, Statement.readLines_assignmentLine]
        simp [allInRange, numbers, assignmentOf]

theorem Statement.read?_header (key : BareKey) (most : Nat) (rest : List Char) :
    read? most ('[' :: (key.letters ++ ']' :: rest)) = some (.header [key.name], rest) := by
  have path : readKeyPath (key.letters ++ ']' :: rest) = some ([key.name], ']' :: rest) :=
    key.readKeyPath_eq (by decide) rfl (by simp)
  obtain ⟨first, others, shape, bare⟩ := key.exists_letters_eq_cons
  rw [shape, List.cons_append] at path ⊢
  unfold read?
  split
  next same => cases same; cases bare
  next same => cases same; rw [path]; rfl
  next notHeader => exact absurd rfl (notHeader _)

theorem PlainTable.header_reads (table : PlainTable) : Reads table.header true [.header [table.name]] := by
  refine ⟨by simp [PlainTable.header], 1, by simp [PlainTable.header], fun most left rest => ?_⟩
  have shape : table.header ++ rest = '[' :: (table.key.letters ++ ']' :: '\n' :: rest) := by
    simp [PlainTable.header]
  have goesOn (text : List Char) : lineEnd? ('[' :: text) = none := rfl
  have atOnce (text : List Char) : skipSpace ('[' :: text) = '[' :: text := rfl
  have ended : lineEnd? ('\n' :: rest) = some rest := rfl
  rw [shape, Statement.readLines_of_goesOn (List.cons_ne_nil _ _) (goesOn _), atOnce, Statement.read?_header]
  simp [ended, PlainTable.name]

theorem reads_lines (lines : List PlainLine) :
    Reads (lines.flatMap PlainLine.text) (allInRange (numbersOf lines)) ((numbersOf lines).map assignmentOf) := by
  have allFit : lines.all (fun line => allInRange line.numbers) = allInRange (numbersOf lines) := List.all_flatMap.symm
  have assignments : lines.flatMap (fun line => line.numbers.map assignmentOf) =
      (numbersOf lines).map assignmentOf := List.map_flatMap.symm
  rw [← allFit, ← assignments]
  exact .flatMap PlainLine.reads lines

def PlainTable.statements (table : PlainTable) : List Statement :=
  .header [table.name] :: (numbersOf table.lines).map assignmentOf

namespace PlainDocument

variable (document : PlainDocument)

def statements : List Statement :=
  (numbersOf document.lines).map assignmentOf ++ document.tables.flatMap PlainTable.statements

theorem reads : Reads document.text (allInRange document.numbers) document.statements := by
  have allFit : allInRange document.numbers = (allInRange (numbersOf document.lines) &&
      document.tables.all fun table => allInRange (numbersOf table.lines)) := by
    simp only [allInRange, numbers, List.all_append, List.all_flatMap]
  rw [allFit]
  exact (reads_lines document.lines).append
    (.flatMap (fun table => table.header_reads.append (reads_lines table.lines)) document.tables)

end PlainDocument

/-! ## The table of a plain document -/

namespace Table

def keys (table : Table) : List String :=
  table.map Prod.fst

theorem keys_append (first second : Table) : keys (first ++ second) = keys first ++ keys second :=
  List.map_append

variable {table : Table}

theorem lookup_of_fresh {key : String} (fresh : key ∉ keys table) : table.lookup key = none := by
  have absent : ∀ entry ∈ table, key ≠ entry.1 :=
    fun entry member same => fresh (same ▸ List.mem_map_of_mem member)
  simpa [List.lookup_eq_none_iff] using absent

theorem add?_eq (key : String) (value : Value) :
    table.add? key value = if key ∈ keys table then none else some (table ++ [(key, value)]) := by
  have there : (table.lookup key).isSome = true ↔ key ∈ keys table := by
    simp [List.lookup_isSome_iff, keys]
  simp only [add?, there]

/-- Adds entries one after the other. -/
def addAll? (table : Table) (entries : List (String × Value)) : Option Table :=
  entries.foldlM (fun table entry => table.add? entry.1 entry.2) table

theorem addAll?_eq {entries : List (String × Value)} (distinct : (keys table).Nodup) :
    table.addAll? entries = if (keys (table ++ entries)).Nodup then some (table ++ entries) else none := by
  induction entries generalizing table with
  | nil => simp [addAll?, distinct]
  | cons entry entries ih =>
      by_cases member : entry.1 ∈ keys table
      · have twice : ¬ (keys (table ++ entry :: entries)).Nodup := by
          intro nodup
          rw [keys_append, keys, keys, List.map_cons, List.nodup_middle] at nodup
          exact (List.nodup_cons.mp nodup).1 (List.mem_append_left _ member)
        simp [addAll?, add?_eq, member, twice]
      · have still : (keys (table ++ [entry])).Nodup := by
          rw [keys_append]
          exact List.nodup_middle.mpr (by simpa using List.nodup_cons.mpr ⟨member, distinct⟩)
        rw [List.append_cons, ← ih still]
        simp [addAll?, add?_eq, member]

end Table

def entryOf (number : String × Nat) : String × Value :=
  (number.1, .integer number.2)

namespace Document

/-- Assignments act on the table in which key paths begin, wherever it lies. -/
theorem foldlM_assignmentOf {put : Table → Document}
    (acts : ∀ inner entry, add? (put inner) (assignmentOf entry) =
      (inner.add? entry.1 (.integer entry.2)).map put)
    (numbers : List (String × Nat)) (inner : Table) :
    (numbers.map assignmentOf).foldlM add? (put inner) = (inner.addAll? (numbers.map entryOf)).map put := by
  induction numbers generalizing inner with
  | nil => rfl
  | cons number numbers ih =>
      rw [List.map_cons, List.foldlM_cons, acts]
      simp only [Table.addAll?, List.map_cons, List.foldlM_cons, entryOf]
      cases inner.add? number.1 (.integer number.2) with
      | none => rfl
      | some inner => exact ih inner

/-- The document in which a header has named the last table. -/
def below (table : Table) (name : String) (inner : Table) : Document where
  table := table ++ [(name, .table .header inner)]
  current := [name]

section Below

variable {table : Table} {name : String} (fresh : name ∉ Table.keys table)

include fresh

theorem add?_header (current : List String) :
    add? { table, current } (.header [name]) = some (below table name []) := by
  have begun : table.begin? name = some (table ++ [(name, .table .header [])]) := by
    rw [Table.begin?, Table.lookup_of_fresh fresh]
    exact (Table.add?_eq name _).trans (if_neg fresh)
  have header : add? { table, current } (.header [name]) =
      (table.begin? name).map fun table => { table, current := [name] } := by
    simp only [add?, begin?, List.getLast?_singleton, List.dropLast_singleton, Table.changeAt?,
      Option.bind_eq_bind, Option.bind_some]
    cases table.begin? name <;> rfl
  rw [header, begun]
  rfl

theorem add?_below (inner : Table) (number : String × Nat) :
    (below table name inner).add? (assignmentOf number) =
      (inner.add? number.1 (.integer number.2)).map (below table name) := by
  have found : (below table name inner).table.lookup name = some (.table .header inner) := by
    simp [below, List.lookup_append, Table.lookup_of_fresh fresh]
  have replaced (next : Table) : (below table name inner).table.replace name (.table .header next) =
      (below table name next).table := by
    have others : table.map (fun entry => if entry.1 = name then (name, Value.table .header next) else entry) =
        table.map id := by
      refine List.map_congr_left fun entry member => if_neg ?_
      rintro rfl
      exact fresh (List.mem_map_of_mem member)
    simp [below, Table.replace, others]
  have there : (below table name inner).current = [name] := rfl
  have notInline : Origin.header ≠ Origin.inline := by decide
  simp only [add?, assignmentOf, there, Table.changeAt?, found, if_neg notInline, Table.assign?, replaced]
  cases inner.add? number.1 (.integer number.2) <;> rfl

end Below

theorem add?_own (inner : Table) (number : String × Nat) :
    add? { table := inner } (assignmentOf number) =
      (inner.add? number.1 (.integer number.2)).map fun inner => { table := inner } := rfl

end Document

def PlainTable.entry (table : PlainTable) : String × Value :=
  (table.name, .table .header ((numbersOf table.lines).map entryOf))

theorem keys_numbers (lines : List PlainLine) : Table.keys ((numbersOf lines).map entryOf) = keysOf lines :=
  List.map_map

theorem addAll?_numbers (lines : List PlainLine) :
    Table.addAll? [] ((numbersOf lines).map entryOf) =
      if (keysOf lines).Nodup then some ((numbersOf lines).map entryOf) else none := by
  have empty : (Table.keys []).Nodup := List.nodup_nil
  rw [Table.addAll?_eq empty, List.nil_append, keys_numbers]

namespace Document

theorem foldlM_own (lines : List PlainLine) :
    ((numbersOf lines).map assignmentOf).foldlM add? {} =
      if (keysOf lines).Nodup then some { table := (numbersOf lines).map entryOf } else none := by
  have fold := @foldlM_assignmentOf (fun inner => { table := inner }) add?_own (numbersOf lines) []
  rw [fold, addAll?_numbers]
  split <;> rfl

theorem foldlM_table {table : Table} {plain : PlainTable} (fresh : plain.name ∉ Table.keys table)
    (current : List String) :
    plain.statements.foldlM add? { table, current } =
      if (keysOf plain.lines).Nodup then some { table := table ++ [plain.entry], current := [plain.name] }
      else none := by
  have fold := foldlM_assignmentOf (add?_below fresh) (numbersOf plain.lines) []
  rw [PlainTable.statements, List.foldlM_cons, add?_header fresh]
  refine fold.trans ?_
  rw [addAll?_numbers]
  split <;> rfl

theorem foldlM_tables {tables : List PlainTable} {table : Table} (names : (tables.map PlainTable.name).Nodup)
    (fresh : ∀ plain ∈ tables, plain.name ∉ Table.keys table) (current : List String) :
    ((tables.flatMap PlainTable.statements).foldlM add? { table, current }).map (·.table) =
      if ∀ plain ∈ tables, (keysOf plain.lines).Nodup then some (table ++ tables.map PlainTable.entry) else none := by
  induction tables generalizing table current with
  | nil => simp
  | cons plain tables ih =>
      obtain ⟨newName, names⟩ := List.nodup_cons.mp names
      obtain ⟨headFresh, fresh⟩ := List.forall_mem_cons.mp fresh
      have stillFresh : ∀ other ∈ tables, other.name ∉ Table.keys (table ++ [plain.entry]) := by
        intro other member inTable
        rw [Table.keys_append] at inTable
        rcases List.mem_append.mp inTable with old | new
        · exact fresh other member old
        · have same : other.name = plain.name := List.mem_singleton.mp new
          exact newName (same ▸ List.mem_map_of_mem member)
      rw [List.flatMap_cons, List.foldlM_append, foldlM_table headFresh]
      by_cases distinct : (keysOf plain.lines).Nodup
      · simp only [if_pos distinct, Option.bind_eq_bind, Option.bind_some, ih names stillFresh]
        simp [distinct]
      · simp [distinct]

end Document

namespace PlainDocument

variable (document : PlainDocument)

/-- The numbers of the document's own table, and behind them the tables. -/
def table : Table :=
  (numbersOf document.lines).map entryOf ++ document.tables.map PlainTable.entry

theorem tableOf?_statements :
    Document.tableOf? document.statements = if document.KeysDistinct then some document.table else none := by
  have fresh : ∀ table ∈ document.tables, table.name ∉ Table.keys ((numbersOf document.lines).map entryOf) := by
    simpa only [keys_numbers] using document.names_fresh
  rw [Document.tableOf?, statements, List.foldlM_append, Document.foldlM_own]
  by_cases own : (keysOf document.lines).Nodup
  · rw [if_pos own]
    refine (Document.foldlM_tables document.names_nodup fresh []).trans ?_
    simp only [KeysDistinct, own, true_and, table]
  · simp [KeysDistinct, own]

theorem ofText?_text :
    Document.ofText? document.text =
      if allInRange document.numbers = true ∧ document.KeysDistinct then some document.table else none := by
  rw [Document.ofText?, document.reads.ofText?_eq]
  cases allInRange document.numbers with
  | false => rfl
  | true => simpa using document.tableOf?_statements

end PlainDocument

end BlockInventory.Toml
