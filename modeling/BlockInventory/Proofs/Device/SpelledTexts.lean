import BlockInventory.Proofs.Device.RoundTrip

/-!
# Texts of records

Every text of every spelling of a record is read as the record, whatever space stands between its tokens. A text that
gives a field twice is none of them, and it is not read.
-/

set_option autoImplicit false

namespace BlockInventory

/-! ## Fields given twice -/

/-- An object in which two members give the same one of these fields. -/
def Json.Value.Repeats (names : List String) (value : Json.Value) : Prop :=
  ∃ name ∈ names, ∃ before first between second after,
    value = .object (before ++ (some name, first) :: (between ++ (some name, second) :: after))

/-- What a spelling of a device gives as its partitions. -/
inductive Device.GivesPartitions : (value partitions : Json.Value) → Prop where
  | member {members : List (Option String × Json.Value)} {partitions : Json.Value} :
      (some "partitions", partitions) ∈ members → GivesPartitions (.object members) partitions
  | item {items : List Json.Value} {partitions : Json.Value} :
      items[6]? = some partitions → GivesPartitions (.array items) partitions

/-- A field of the device, or of one of its partitions, is given by two members. -/
inductive Device.GivesTwice (value : Json.Value) : Prop where
  | here : value.Repeats fieldNames → GivesTwice value
  | inPartition {entries : List (Option String × Json.Value)} {name : Option String} {partition : Json.Value} :
      GivesPartitions value (.object entries) → (name, partition) ∈ entries →
      partition.Repeats MountedPartition.fieldNames → GivesTwice value

namespace GivenFields

variable {α : Type} {given : GivenFields} {names : List String} {name : String} {value : Json.Value}
  {members : List (Option String × Json.Value)} {read? : Json.Value → Option α} {default result : α}

theorem ofMembers?_eq_some_iff :
    ofMembers? members = some given ↔ members = given.map fun entry => (some entry.1, entry.2) := by
  rw [ofMembers?, mapM_eq_some_iff]
  constructor
  · intro texts
    induction members generalizing given with
    | nil =>
        cases given with
        | nil => rfl
        | cons entry given => cases texts
    | cons member members ih =>
        obtain ⟨entry, given, rfl, found, others⟩ := List.map_eq_cons_iff.mp texts.symm
        obtain ⟨key, value⟩ := member
        obtain ⟨name, rfl, rfl⟩ := Option.map_eq_some_iff.mp found.symm
        rw [List.map_cons, ih others.symm]
  · rintro rfl
    rw [List.map_map]
    rfl

theorem length_valuesOf (read : ofMembers? members = some given) (name : String) :
    (given.valuesOf name).length = (members.map (·.1)).count (some name) := by
  obtain rfl := ofMembers?_eq_some_iff.mp read
  clear read
  induction given with
  | nil => rfl
  | cons entry given ih =>
      obtain ⟨key, value⟩ := entry
      by_cases same : key = name <;> simp [same, ih]

theorem two_le_of_repeats (repeats : value.Repeats names) (read : ofValue? names value = some given) :
    ∃ name ∈ names, 2 ≤ (given.valuesOf name).length := by
  obtain ⟨name, isName, before, first, between, second, after, rfl⟩ := repeats
  refine ⟨name, isName, ?_⟩
  rw [length_valuesOf read]
  simp only [List.map_append, List.map_cons, List.count_append, List.count_cons_self]
  omega

theorem length_le_of_withDefault? (read : given.withDefault? name read? default = some result) :
    (given.valuesOf name).length ≤ 1 := by
  unfold withDefault? at read
  split at read
  next none => simp [none]
  next one => simp [one]
  next => cases read

theorem length_le_of_required? (read : given.required? name read? = some result) :
    (given.valuesOf name).length ≤ 1 := by
  unfold required? at read
  split at read
  next one => simp [one]
  next => cases read

theorem mem_valuesOf_iff : value ∈ given.valuesOf name ↔ (name, value) ∈ given := by
  simp [valuesOf]

theorem read_of_withDefault? (isGiven : value ∈ given.valuesOf name)
    (read : given.withDefault? name read? default = some result) : read? value = some result := by
  unfold withDefault? at read
  split at read
  next none => simp [none] at isGiven
  next one =>
    rw [one, List.mem_singleton] at isGiven
    rw [isGiven, read]
  next => cases read

/-- A record of which every field is read gives none of them twice. -/
theorem not_repeats (members : ofValue? names value = some given)
    (once : ∀ name ∈ names, (given.valuesOf name).length ≤ 1) : ¬value.Repeats names := by
  intro repeats
  obtain ⟨name, isName, twice⟩ := two_le_of_repeats repeats members
  exact absurd (once name isName) (Nat.not_le.mpr twice)

end GivenFields

theorem Json.Value.exists_of_map? {α : Type} {read? : Value → Option α} {entries : List (Option String × Value)}
    {map : SortedMap α} (read : map? read? (.object entries) = some map) {name : Option String} {value : Value}
    (isEntry : (name, value) ∈ entries) : ∃ result, read? value = some result := by
  simp only [map?, Option.bind_eq_bind, Option.bind_eq_some_iff, mapM_eq_some_iff] at read
  obtain ⟨given, members, results, reads, _⟩ := read
  rw [GivenFields.ofMembers?_eq_some_iff.mp members] at isEntry
  obtain ⟨member, isMember, same⟩ := List.mem_map.mp isEntry
  cases same
  have isRead := List.mem_map_of_mem
    (f := fun member : String × Value => (read? member.2).map fun value => (member.1, value)) isMember
  rw [reads] at isRead
  obtain ⟨_, _, found⟩ := List.mem_map.mp isRead
  obtain ⟨result, found, _⟩ := Option.map_eq_some_iff.mp found.symm
  exact ⟨result, found⟩

theorem MountedPartition.ofJson?_of_repeats {value : Json.Value} (repeats : value.Repeats fieldNames) :
    ofJson? value = none := by
  rw [Option.eq_none_iff_forall_ne_some]
  intro partition read
  simp only [ofJson?, Option.bind_eq_bind, Option.bind_eq_some_iff] at read
  obtain ⟨given, members, _, mountPoint, _, size, _, available, _⟩ := read
  have once : ∀ name ∈ fieldNames, (given.valuesOf name).length ≤ 1 := by
    simp only [fieldNames, List.forall_mem_cons]
    exact ⟨GivenFields.length_le_of_withDefault? mountPoint, GivenFields.length_le_of_withDefault? size,
      GivenFields.length_le_of_withDefault? available, by simp⟩
  exact GivenFields.not_repeats members once repeats

namespace Device

theorem GivesPartitions.mem_valuesOf {value partitions : Json.Value} {given : GivenFields}
    (gives : GivesPartitions value partitions) (members : GivenFields.ofValue? fieldNames value = some given) :
    partitions ∈ given.valuesOf "partitions" := by
  rw [GivenFields.mem_valuesOf_iff]
  cases gives with
  | member isMember =>
      rw [GivenFields.ofMembers?_eq_some_iff.mp members] at isMember
      simpa using isMember
  | @item items _ last =>
      simp only [GivenFields.ofValue?, Option.ite_none_right_eq_some, Option.some.injEq] at members
      obtain ⟨_, rfl⟩ := members
      have together : (fieldNames.zip items)[6]? = some ("partitions", partitions) :=
        List.getElem?_zip_eq_some.mpr ⟨rfl, last⟩
      exact List.mem_of_getElem? together

theorem ofJson?_of_givesTwice {value : Json.Value} (twice : GivesTwice value) : ofJson? value = none := by
  rw [Option.eq_none_iff_forall_ne_some]
  intro device read
  simp only [ofJson?, Option.bind_eq_bind, Option.bind_eq_some_iff] at read
  obtain ⟨given, members, _, name, _, driver, _, vendor, _, model, _, serial, _, size, _, partitionsRead, _⟩ := read
  cases twice with
  | here repeats =>
      have once : ∀ name ∈ fieldNames, (given.valuesOf name).length ≤ 1 := by
        simp only [fieldNames, List.forall_mem_cons]
        exact ⟨GivenFields.length_le_of_required? name, GivenFields.length_le_of_withDefault? driver,
          GivenFields.length_le_of_withDefault? vendor, GivenFields.length_le_of_withDefault? model,
          GivenFields.length_le_of_withDefault? serial, GivenFields.length_le_of_withDefault? size,
          GivenFields.length_le_of_withDefault? partitionsRead, by simp⟩
      exact GivenFields.not_repeats members once repeats
  | inPartition gives isEntry repeats =>
      have read := GivenFields.read_of_withDefault? (gives.mem_valuesOf members) partitionsRead
      obtain ⟨map, mapRead, _⟩ := Option.map_eq_some_iff.mp read
      obtain ⟨partition, partitionRead⟩ := Json.Value.exists_of_map? mapRead isEntry
      rw [MountedPartition.ofJson?_of_repeats repeats] at partitionRead
      cases partitionRead

end Device

/-- Every text of every spelling of a record is read as the record, and no text that gives a field twice is read, be it
a field of the device or of one of its partitions. -/
theorem ofJsonText?_spelled :
    (∀ (device : Device) value text, RecordSpelled device.fields value → Json.Token.Spelled value.tokens text →
        Device.ofJsonText? text = some device) ∧
      (∀ (partition : MountedPartition) value text, RecordSpelled partition.fields value →
        Json.Token.Spelled value.tokens text → MountedPartition.ofJsonText? text = some partition) ∧
      (∀ value text, Device.GivesTwice value → Json.Token.Spelled value.tokens text → Device.ofJsonText? text = none) ∧
      ∀ (value : Json.Value) text, value.Repeats MountedPartition.fieldNames → Json.Token.Spelled value.tokens text →
        MountedPartition.ofJsonText? text = none := by
  refine ⟨?_, ?_, ?_, ?_⟩
  · intro device value text recordSpelled spelled
    rw [Device.ofJsonText?, Json.Value.ofText?_of_spelled spelled]
    exact Device.ofJson?_spelled recordSpelled
  · intro partition value text recordSpelled spelled
    rw [MountedPartition.ofJsonText?, Json.Value.ofText?_of_spelled spelled]
    exact MountedPartition.ofJson?_spelled recordSpelled
  · intro value text twice spelled
    rw [Device.ofJsonText?, Json.Value.ofText?_of_spelled spelled]
    exact Device.ofJson?_of_givesTwice twice
  · intro value text repeats spelled
    rw [MountedPartition.ofJsonText?, Json.Value.ofText?_of_spelled spelled]
    exact MountedPartition.ofJson?_of_repeats repeats

def lonelyPartition : MountedPartition where
  size := 7

def partedDevice : Device where
  name := "sda"
  partitions := some (SortedMap.empty.insert "sda1" lonelyPartition)

def lonelyItems : Json.Value :=
  .array [.null, .ofWord 7]

/-- The partitions come first, a member that is passed over next, and the size although it is zero. -/
def partedValue : Json.Value :=
  .ofMembers [("partitions", .ofMembers [("sda1", lonelyItems)]), ("x", .array [.string none]),
    ("name", .ofString "sda"), ("size", .ofWord 0)]

def twiceSized : Json.Value :=
  .ofMembers [("size", .ofWord 7), ("mountPoint", .null), ("size", .ofWord 7)]

/-- The size of a partition is given twice, deep in a device. -/
def twiceValue : Json.Value :=
  .array [.ofString "sda", .null, .null, .null, .null, .ofWord 0, .ofMembers [("sda1", twiceSized)]]

theorem ofJsonText?_spelled_parted :
    RecordSpelled partedDevice.fields partedValue ∧ RecordSpelled lonelyPartition.fields lonelyItems ∧
      Device.GivesTwice twiceValue ∧ twiceSized.Repeats MountedPartition.fieldNames ∧
      Device.ofJsonText? (partedValue.pretty 0) = some partedDevice ∧
      MountedPartition.ofJsonText? (lonelyItems.pretty 0) = some lonelyPartition ∧
      Device.ofJsonText? (twiceValue.pretty 0) = none ∧ MountedPartition.ofJsonText? (twiceSized.pretty 0) = none := by
  have number (word : UInt64) : (Json.Value.ofWord word).Spellable := .number (Json.isNumber_write word.toNat)
  have lonely : RecordSpelled lonelyPartition.fields lonelyItems :=
    .array (.item rfl (.item rfl (.rest (by simp [RecordField.word, lonelyPartition]))))
  have parted : RecordSpelled partedDevice.fields partedValue := by
    have partitions : PartitionsSpelled partedDevice.partitions (.ofMembers [("sda1", lonelyItems)]) :=
      .object (.refl _) (.cons ⟨rfl, lonely⟩ .nil)
    have unknown : ∀ member ∈ [("x", Json.Value.array [.string none])],
        member.1 ∉ partedDevice.fields.map (·.name) := by
      simp [Device.fields, RecordField.text, RecordField.word]
    exact .object
      (.member rfl (.leftOut rfl (.leftOut rfl (.leftOut rfl (.leftOut rfl (.member rfl (.member partitions .nil)))))))
      unknown (@List.perm_append_comm _ [_, _] [_, _])
  have repeats : twiceSized.Repeats MountedPartition.fieldNames :=
    ⟨"size", by decide, [], .ofWord 7, [(some "mountPoint", .null)], .ofWord 7, [], rfl⟩
  have twice : Device.GivesTwice twiceValue := .inPartition (.item rfl) List.mem_cons_self repeats
  have lonelySpellable : lonelyItems.Spellable := .array (by simp [number, Json.Value.Spellable.null])
  have twiceSizedSpellable : twiceSized.Spellable :=
    Json.Value.spellable_ofMembers (by simp [number, Json.Value.Spellable.null])
  have partedSpellable : partedValue.Spellable := by
    refine Json.Value.spellable_ofMembers ?_
    simp only [List.forall_mem_cons]
    exact ⟨Json.Value.spellable_ofMembers (by simp [lonelySpellable]), .array (by simp [Json.Value.Spellable.string]),
      .string _, number 0, by simp⟩
  have twiceSpellable : twiceValue.Spellable := by
    refine .array ?_
    simp only [List.forall_mem_cons]
    exact ⟨.string _, .null, .null, .null, .null, number 0,
      Json.Value.spellable_ofMembers (by simp [twiceSizedSpellable]), by simp⟩
  have spelled {value : Json.Value} (spellable : value.Spellable) : Json.Token.Spelled value.tokens (value.pretty 0) :=
    Json.Value.prettyLayout.spelled_write spellable 0
  obtain ⟨device, partition, notDevice, notPartition⟩ := ofJsonText?_spelled
  exact ⟨parted, lonely, twice, repeats, device _ _ _ parted (spelled partedSpellable),
    partition _ _ _ lonely (spelled lonelySpellable), notDevice _ _ twice (spelled twiceSpellable),
    notPartition _ _ repeats (spelled twiceSizedSpellable)⟩

end BlockInventory
