import BlockInventory.MountTable
import BlockInventory.PartitionTable

/-!
# What the tables hold

A table of a host is read from text line by line. The mount table holds for each source what the first of its lines
tells, the partition table for each name what the last of its rows tells; other lines do not matter.
-/

set_option autoImplicit false

namespace BlockInventory

/-- The first of the lines that tell anything tells this value. -/
inductive FirstTells {Line Value : Type} (tells : Line → Value → Prop) : List Line → Value → Prop where
  | here {line : Line} {rest : List Line} {value : Value} :
      tells line value → FirstTells tells (line :: rest) value
  | later {line : Line} {rest : List Line} {value : Value} :
      (∀ other, ¬tells line other) → FirstTells tells rest value → FirstTells tells (line :: rest) value

namespace FirstTells

variable {Line Value : Type} {tells : Line → Value → Prop} {lines : List Line}

theorem exists_mem {value : Value} (first : FirstTells tells lines value) :
    ∃ line ∈ lines, tells line value := by
  induction first with
  | here told => exact ⟨_, List.mem_cons_self, told⟩
  | later _ _ ih =>
      obtain ⟨line, member, told⟩ := ih
      exact ⟨line, List.mem_cons_of_mem _ member, told⟩

theorem exists_of_mem {line : Line} {value : Value} (member : line ∈ lines) (told : tells line value) :
    ∃ first, FirstTells tells lines first := by
  induction lines with
  | nil => cases member
  | cons head rest ih =>
      by_cases speaks : ∃ other, tells head other
      · obtain ⟨other, told⟩ := speaks
        exact ⟨other, .here told⟩
      · rcases List.mem_cons.mp member with rfl | inRest
        · exact absurd ⟨value, told⟩ speaks
        · obtain ⟨first, found⟩ := ih inRest
          exact ⟨first, .later (fun other told => speaks ⟨other, told⟩) found⟩

theorem map_iff {Result : Type} {f : Value → Result} {result : Result} :
    FirstTells (fun line result => ∃ value, tells line value ∧ f value = result) lines result ↔
      ∃ value, FirstTells tells lines value ∧ f value = result := by
  constructor
  · intro first
    induction first with
    | here told =>
        obtain ⟨value, told, same⟩ := told
        exact ⟨value, .here told, same⟩
    | later silent _ ih =>
        obtain ⟨value, first, same⟩ := ih
        exact ⟨value, .later (fun other told => silent (f other) ⟨other, told, rfl⟩) first, same⟩
  · rintro ⟨value, first, rfl⟩
    induction first with
    | here told => exact .here ⟨_, told, rfl⟩
    | later silent _ ih =>
        refine .later ?_ ih
        rintro _ ⟨other, told, _⟩
        exact silent other told

theorem map_lines_iff {Other : Type} {f : Other → Line} {others : List Other} {value : Value} :
    FirstTells tells (others.map f) value ↔ FirstTells (fun other value => tells (f other) value) others value := by
  induction others with
  | nil =>
      constructor <;> intro first <;> cases first
  | cons head rest ih =>
      constructor
      · intro first
        cases first with
        | here told => exact .here told
        | later silent first => exact .later silent (ih.mp first)
      · intro first
        cases first with
        | here told => exact .here told
        | later silent first => exact .later silent (ih.mpr first)

theorem filter_iff {keep : Line → Bool} (keeps : ∀ line value, tells line value → keep line = true) {value : Value} :
    FirstTells tells (lines.filter keep) value ↔ FirstTells tells lines value := by
  induction lines with
  | nil => rfl
  | cons head rest ih =>
      cases kept : keep head with
      | true =>
          rw [List.filter_cons_of_pos kept]
          constructor
          · intro first
            cases first with
            | here told => exact .here told
            | later silent first => exact .later silent (ih.mp first)
          · intro first
            cases first with
            | here told => exact .here told
            | later silent first => exact .later silent (ih.mpr first)
      | false =>
          have silent (other : Value) : ¬tells head other := by
            intro told
            rw [keeps head other told] at kept
            cases kept
          rw [List.filter_cons_of_neg (by simp [kept]), ih]
          constructor
          · intro first
            exact .later silent first
          · intro first
            cases first with
            | here told => exact absurd told (silent value)
            | later _ first => exact first

end FirstTells

theorem findSome?_eq_some_iff_firstTells {Line Value : Type} {read? : Line → Option Value} {lines : List Line}
    {value : Value} :
    lines.findSome? read? = some value ↔ FirstTells (fun line value => read? line = some value) lines value := by
  induction lines with
  | nil =>
      constructor <;> intro found <;> cases found
  | cons head rest ih =>
      rw [List.findSome?_cons]
      cases told : read? head with
      | none =>
          have silent (other : Value) : read? head ≠ some other := by
            intro speaks
            rw [told] at speaks
            cases speaks
          constructor
          · intro found
            exact .later silent (ih.mp found)
          · intro found
            cases found with
            | here told => exact absurd told (silent value)
            | later _ found => exact ih.mpr found
      | some valueOfHead =>
          constructor
          · intro found
            cases found
            exact .here told
          · intro found
            cases found with
            | here again => rw [← told, again]
            | later silent _ => exact absurd told (silent valueOfHead)

theorem lookup_filterMap_eq_some_iff {Line Value : Type} {read? : Line → Option (String × Value)}
    {lines : List Line} {key : String} {value : Value} :
    (lines.filterMap read?).lookup key = some value ↔
      FirstTells (fun line value => read? line = some (key, value)) lines value := by
  have tells (line : Line) (value : Value) :
      ((read? line).bind fun entry => if key == entry.1 then some entry.2 else none) = some value ↔
        read? line = some (key, value) := by
    simp only [Option.bind_eq_some_iff, Option.ite_none_right_eq_some, beq_iff_eq, Option.some.injEq]
    constructor
    · intro found
      obtain ⟨_, entry, rfl, rfl⟩ := found
      exact entry
    · intro entry
      exact ⟨_, entry, rfl, rfl⟩
  -- Looking an entry up is a search of the lines for the first entry with the key.
  rw [List.lookup_eq_findSome?, ← List.head?_filterMap, List.filterMap_filterMap, List.head?_filterMap,
    findSome?_eq_some_iff_firstTells]
  simp only [tells]

/-- What the lines of two texts tell is told by the lines of both with a line feed between them. -/
theorem filterMap_splitOn_append {Entry : Type} (read? : List Char → Option Entry) (first second : List Char) :
    ((first ++ '\n' :: second).splitOn '\n').filterMap read? =
      (first.splitOn '\n').filterMap read? ++ (second.splitOn '\n').filterMap read? := by
  rw [List.splitOn_append_cons_self, List.filterMap_append]

namespace MountTable

/-- The first two fields of the line are the source and an encoded mount point. -/
def Mounts (source line field : List Char) : Prop :=
  ∃ further, Text.fields line = source :: field :: further

/-- The first line of the text that mounts the source has this encoded mount point. -/
def FirstMount (text source field : List Char) : Prop :=
  FirstTells (Mounts source) (text.splitOn '\n') field

/-- The fields of the lines whose source begins with the path of a device. -/
def linesBeneath (device text : List Char) : List (List (List Char)) :=
  ((text.splitOn '\n').map Text.fields).filter fun fields => (deviceDirectory ++ device).isPrefixOf (fields.headD [])

/-- Where a source beneath a device is first mounted, only the lines beneath the device tell. -/
theorem firstMount_iff_linesBeneath {device text source field : List Char}
    (beneath : deviceDirectory ++ device <+: source) :
    FirstMount text source field ↔
      FirstTells (fun fields field => ∃ further, fields = source :: field :: further) (linesBeneath device text) field := by
  rw [linesBeneath, FirstTells.filter_iff, FirstTells.map_lines_iff]
  · rfl
  · rintro _ _ ⟨_, rfl⟩
    exact List.isPrefixOf_iff_prefix.mpr beneath

theorem Mounts.ne_nil {source line field : List Char} (mounts : Mounts source line field) : field ≠ [] := by
  obtain ⟨further, shape⟩ := mounts
  exact Text.ne_nil_of_mem_fields (shape ▸ List.mem_cons_of_mem _ List.mem_cons_self)

theorem FirstMount.ne_nil {text source field : List Char} (first : FirstMount text source field) : field ≠ [] := by
  obtain ⟨_, _, mounts⟩ := first.exists_mem
  exact mounts.ne_nil

theorem exists_firstMount_iff {text source : List Char} :
    (∃ field, FirstMount text source field) ↔ ∃ line ∈ text.splitOn '\n', ∃ field, Mounts source line field := by
  constructor
  · intro mounted
    obtain ⟨field, first⟩ := mounted
    obtain ⟨line, member, mounts⟩ := first.exists_mem
    exact ⟨line, member, field, mounts⟩
  · intro mounted
    obtain ⟨line, member, field, mounts⟩ := mounted
    exact FirstTells.exists_of_mem member mounts

theorem ofLine?_eq_some_iff {line : List Char} {source mountPoint : String} :
    ofLine? line = some (source, mountPoint) ↔
      deviceDirectory <+: source.toList ∧
        ∃ field, Mounts source.toList line field ∧ String.ofList (decodeField field) = mountPoint := by
  unfold ofLine? Mounts
  cases shape : Text.fields line with
  | nil => simp
  | cons first others =>
      cases others with
      | nil => simp
      | cons field further =>
          simp only [List.isPrefixOf_iff_prefix, List.cons.injEq]
          split
          next beneath =>
            constructor
            · intro read
              cases read
              rw [String.toList_ofList]
              exact ⟨beneath, field, ⟨further, rfl, rfl, rfl⟩, rfl⟩
            · rintro ⟨_, _, ⟨_, rfl, rfl, rfl⟩, rfl⟩
              rw [String.ofList_toList]
          next elsewhere =>
            constructor
            · intro read
              cases read
            · rintro ⟨beneath, _, ⟨_, rfl, rfl, rfl⟩, _⟩
              exact absurd beneath elsewhere

/-- The table holds the devices that the text mounts, each where its first line mounts it. -/
theorem get?_ofText_eq_some_iff {text : List Char} {source mountPoint : String} :
    (ofText text).get? source = some mountPoint ↔
      deviceDirectory <+: source.toList ∧
        ∃ field, FirstMount text source.toList field ∧ String.ofList (decodeField field) = mountPoint := by
  rw [ofText, SortedMap.get?_ofFirst, lookup_filterMap_eq_some_iff]
  simp only [ofLine?_eq_some_iff]
  by_cases beneath : deviceDirectory <+: source.toList
  · simp only [beneath, true_and]
    exact FirstTells.map_iff
  · simp only [beneath, false_and, iff_false]
    intro first
    obtain ⟨_, _, impossible⟩ := first.exists_mem
    exact impossible

end MountTable

namespace PartitionTable

/-- The line has four fields, of which the third is a count of blocks and the fourth the name. -/
def Counts (name line : List Char) (blocks : UInt64) : Prop :=
  ∃ major minor numeral, Text.fields line = [major, minor, numeral, name] ∧
    Text.Numeral.read? numeral = some blocks

/-- The last row of the text for the name counts this many blocks. -/
def LastCount (text name : List Char) (blocks : UInt64) : Prop :=
  FirstTells (Counts name) (text.splitOn '\n').reverse blocks

theorem ofLine?_eq_some_iff {line : List Char} {name : String} {blocks : UInt64} :
    ofLine? line = some (name, blocks) ↔ Counts name.toList line blocks := by
  unfold ofLine? Counts
  split
  next major minor numeral last shape =>
    rw [shape, Option.map_eq_some_iff]
    constructor
    · rintro ⟨count, read, same⟩
      cases same
      rw [String.toList_ofList]
      exact ⟨major, minor, numeral, rfl, read⟩
    · rintro ⟨_, _, _, same, read⟩
      cases same
      exact ⟨blocks, read, by rw [String.ofList_toList]⟩
  next other =>
    constructor
    · intro read
      cases read
    · rintro ⟨_, _, _, shape, _⟩
      exact absurd shape (other _ _ _ _)

/-- The table holds for each name the count of its last row. -/
theorem get?_ofText_eq_some_iff {text : List Char} {name : String} {blocks : UInt64} :
    (ofText text).get? name = some blocks ↔ LastCount text name.toList blocks := by
  rw [ofText, SortedMap.get?_ofLast, ← List.filterMap_reverse, lookup_filterMap_eq_some_iff, LastCount]
  simp only [ofLine?_eq_some_iff]

end PartitionTable

end BlockInventory
