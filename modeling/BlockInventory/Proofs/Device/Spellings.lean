import BlockInventory.Device.Json
import BlockInventory.Proofs.Success
import Mathlib.Data.List.Forall2

/-!
# Spellings of records

A record can be spelled in many ways: as an object with its members in any order among members that are passed over, or
as an array of its fields in their order; with or without the fields that hold their default. All these values are read
as the record.
-/

set_option autoImplicit false

namespace BlockInventory

/-- A field of a record: its name, the values that spell what it holds, and whether this is its default, with which it
may be left out. -/
structure RecordField where
  name : String
  SpelledAs : Json.Value → Prop
  IsDefault : Prop

namespace RecordField

def text (name : String) (content : Option String) : RecordField where
  name := name
  SpelledAs := fun value => value = content.elim .null .ofString
  IsDefault := content = none

def word (name : String) (content : UInt64) : RecordField where
  name := name
  SpelledAs := fun value => value = .ofWord content
  IsDefault := content = 0

/-- The field is given once, or not at all if it holds its default. -/
inductive GivenBy (field : RecordField) : List Json.Value → Prop where
  | leftOut : field.IsDefault → GivenBy field []
  | once {value : Json.Value} : field.SpelledAs value → GivenBy field [value]

end RecordField

/-- Members for the fields, in their order. -/
inductive MembersFor : List RecordField → GivenFields → Prop where
  | nil : MembersFor [] []
  | leftOut {field : RecordField} {fields : List RecordField} {members : GivenFields} :
      field.IsDefault → MembersFor fields members → MembersFor (field :: fields) members
  | member {field : RecordField} {fields : List RecordField} {value : Json.Value} {members : GivenFields} :
      field.SpelledAs value → MembersFor fields members → MembersFor (field :: fields) ((field.name, value) :: members)

/-- Items for the fields, in their order. Only fields at the end may be left out. -/
inductive ItemsFor : List RecordField → List Json.Value → Prop where
  | rest {fields : List RecordField} : (∀ field ∈ fields, field.IsDefault) → ItemsFor fields []
  | item {field : RecordField} {fields : List RecordField} {value : Json.Value} {items : List Json.Value} :
      field.SpelledAs value → ItemsFor fields items → ItemsFor (field :: fields) (value :: items)

/-- A spelling of a record with these fields. -/
inductive RecordSpelled (fields : List RecordField) : Json.Value → Prop where
  | object {known unknown members : GivenFields} :
      MembersFor fields known → (∀ member ∈ unknown, member.1 ∉ fields.map (·.name)) →
      members.Perm (known ++ unknown) → RecordSpelled fields (.ofMembers members)
  | array {items : List Json.Value} : ItemsFor fields items → RecordSpelled fields (.array items)

def MountedPartition.fields (partition : MountedPartition) : List RecordField :=
  [.text "mountPoint" partition.mountPoint, .word "size" partition.size, .word "availableSize" partition.availableSize]

/-- A spelling of partitions, whose entries may stand in any order. -/
inductive PartitionsSpelled : Option (SortedMap MountedPartition) → Json.Value → Prop where
  | null : PartitionsSpelled none .null
  | object {partitions : SortedMap MountedPartition} {entries : List (String × MountedPartition)}
      {members : GivenFields} :
      entries.Perm partitions.entries →
      List.Forall₂ (fun entry member => entry.1 = member.1 ∧ RecordSpelled entry.2.fields member.2) entries members →
      PartitionsSpelled (some partitions) (.ofMembers members)

def Device.fields (device : Device) : List RecordField :=
  [⟨"name", (· = .ofString device.name), False⟩, .text "driver" device.driver, .text "vendor" device.vendor,
    .text "model" device.model, .text "serial" device.serial, .word "size" device.size,
    ⟨"partitions", PartitionsSpelled device.partitions, device.partitions = none⟩]

/-! ## Spellings give each field -/

section Given

variable {field : RecordField} {fields : List RecordField} {members given : GivenFields} {items : List Json.Value}
  {name : String}

theorem RecordField.GivenBy.of_perm {values others : List Json.Value} (givenBy : field.GivenBy values)
    (perm : others.Perm values) : field.GivenBy others := by
  cases givenBy with
  | leftOut isDefault =>
      rw [List.perm_nil.mp perm]
      exact .leftOut isDefault
  | once spelled =>
      rw [List.perm_singleton.mp perm]
      exact .once spelled

theorem GivenFields.valuesOf_eq_nil (absent : ∀ entry ∈ given, entry.1 ≠ name) : given.valuesOf name = [] := by
  have filtered : given.filter (·.1 = name) = [] :=
    List.filter_eq_nil_iff.mpr fun entry member => by simpa using absent entry member
  rw [valuesOf, filtered, List.map_nil]

private theorem valuesOf_head_eq_nil {head : RecordField} (fresh : head.name ∉ fields.map (·.name))
    (named : ∀ entry ∈ given, entry.1 ∈ fields.map (·.name)) : given.valuesOf head.name = [] := by
  apply GivenFields.valuesOf_eq_nil
  intro entry member same
  exact fresh (same ▸ named entry member)

/-- A value given in front of further fields is the one of its field and of no other. -/
private theorem givenBy_cons {head : RecordField} {value : Json.Value} (spelled : head.SpelledAs value)
    (fresh : head.name ∉ fields.map (·.name)) (named : ∀ entry ∈ given, entry.1 ∈ fields.map (·.name))
    (further : ∀ field ∈ fields, field.GivenBy (given.valuesOf field.name)) :
    ∀ field ∈ head :: fields, field.GivenBy (GivenFields.valuesOf ((head.name, value) :: given) field.name) := by
  refine List.forall_mem_cons.mpr ⟨?_, ?_⟩
  · rw [GivenFields.valuesOf_cons, if_pos rfl, valuesOf_head_eq_nil fresh named]
    exact .once spelled
  · intro field member
    have different : head.name ≠ field.name := by
      intro same
      rw [same] at fresh
      exact fresh (List.mem_map_of_mem member)
    rw [GivenFields.valuesOf_cons, if_neg different]
    exact further field member

theorem MembersFor.name_mem (chosen : MembersFor fields members) :
    ∀ member ∈ members, member.1 ∈ fields.map (·.name) := by
  induction chosen with
  | nil => simp
  | leftOut _ _ ih => exact fun member isMember => List.mem_cons_of_mem _ (ih member isMember)
  | member _ _ ih =>
      rw [List.map_cons, List.forall_mem_cons]
      exact ⟨List.mem_cons_self, fun member isMember => List.mem_cons_of_mem _ (ih member isMember)⟩

theorem MembersFor.givenBy (chosen : MembersFor fields members) (distinct : (fields.map (·.name)).Nodup) :
    ∀ field ∈ fields, field.GivenBy (members.valuesOf field.name) := by
  induction chosen with
  | nil => simp
  | leftOut isDefault further ih =>
      obtain ⟨fresh, distinct⟩ := List.nodup_cons.mp distinct
      refine List.forall_mem_cons.mpr ⟨?_, ih distinct⟩
      rw [valuesOf_head_eq_nil fresh further.name_mem]
      exact .leftOut isDefault
  | member spelled further ih =>
      obtain ⟨fresh, distinct⟩ := List.nodup_cons.mp distinct
      exact givenBy_cons spelled fresh further.name_mem (ih distinct)

theorem ItemsFor.length_le (chosen : ItemsFor fields items) : items.length ≤ fields.length := by
  induction chosen with
  | rest => exact Nat.zero_le _
  | item _ _ ih => exact Nat.succ_le_succ ih

theorem ItemsFor.givenBy (chosen : ItemsFor fields items) (distinct : (fields.map (·.name)).Nodup) :
    ∀ field ∈ fields, field.GivenBy (GivenFields.valuesOf ((fields.map (·.name)).zip items) field.name) := by
  induction chosen with
  | rest areDefaults =>
      intro field isField
      rw [List.zip_nil_right]
      exact .leftOut (areDefaults field isField)
  | item spelled _ ih =>
      obtain ⟨fresh, distinct⟩ := List.nodup_cons.mp distinct
      exact givenBy_cons spelled fresh (fun _ isEntry => (List.of_mem_zip isEntry).1) (ih distinct)

/-- Every spelling of a record gives each of its fields. -/
theorem RecordSpelled.exists_given {value : Json.Value} (spelled : RecordSpelled fields value)
    (distinct : (fields.map (·.name)).Nodup) :
    ∃ given, GivenFields.ofValue? (fields.map (·.name)) value = some given ∧
      ∀ field ∈ fields, field.GivenBy (given.valuesOf field.name) := by
  cases spelled with
  | @object known unknown members chosen others perm =>
      refine ⟨members, GivenFields.ofMembers?_map_some members, fun field isField => ?_⟩
      have passedOver : GivenFields.valuesOf unknown field.name = [] :=
        GivenFields.valuesOf_eq_nil fun member isMember same =>
          others member isMember (same ▸ List.mem_map_of_mem isField)
      have values : (members.valuesOf field.name).Perm (known.valuesOf field.name) := by
        rw [← List.append_nil (known.valuesOf field.name), ← passedOver, ← GivenFields.valuesOf_append]
        exact (perm.filter _).map _
      exact (chosen.givenBy distinct field isField).of_perm values
  | @array items chosen =>
      have few : items.length ≤ (fields.map (·.name)).length := by
        rw [List.length_map]
        exact chosen.length_le
      exact ⟨_, if_pos few, chosen.givenBy distinct⟩

end Given

/-! ## Given fields are read -/

namespace GivenFields

variable {given : GivenFields} {name : String}

theorem withDefault?_of_givenBy {α : Type} {field : RecordField} {read? : Json.Value → Option α} {default content : α}
    (givenBy : field.GivenBy (given.valuesOf name)) (isDefault : field.IsDefault → content = default)
    (reads : ∀ value, field.SpelledAs value → read? value = some content) :
    given.withDefault? name read? default = some content := by
  rw [withDefault?]
  generalize given.valuesOf name = values at givenBy
  cases givenBy with
  | leftOut missing => exact congrArg some (isDefault missing).symm
  | once spelled => exact reads _ spelled

theorem optionalText?_of_givenBy {content : Option String}
    (givenBy : (RecordField.text name content).GivenBy (given.valuesOf name)) :
    given.optionalText? name = some content := by
  refine withDefault?_of_givenBy givenBy id ?_
  rintro _ rfl
  cases content <;> rfl

theorem wordOrZero?_of_givenBy {content : UInt64}
    (givenBy : (RecordField.word name content).GivenBy (given.valuesOf name)) :
    given.wordOrZero? name = some content := by
  refine withDefault?_of_givenBy givenBy id ?_
  rintro _ rfl
  exact Json.Value.word?_ofWord content

end GivenFields

namespace MountedPartition

theorem ofJson?_spelled {partition : MountedPartition} {value : Json.Value}
    (spelled : RecordSpelled partition.fields value) : ofJson? value = some partition := by
  have distinct : fieldNames.Nodup := by decide
  obtain ⟨given, members, givenBy⟩ := spelled.exists_given distinct
  simp only [fields, List.forall_mem_cons] at givenBy
  obtain ⟨mountPoint, size, available, _⟩ := givenBy
  have members : GivenFields.ofValue? fieldNames value = some given := members
  simp only [ofJson?, members, Option.bind_eq_bind, Option.bind_some, GivenFields.optionalText?_of_givenBy mountPoint,
    GivenFields.wordOrZero?_of_givenBy size, GivenFields.wordOrZero?_of_givenBy available]

end MountedPartition

theorem Json.Value.map?_ofMembers_of_map {α : Type} {read? : Value → Option α} {members : GivenFields}
    {entries : List (String × α)}
    (reads : members.map (fun member => (read? member.2).map fun value => (member.1, value)) = entries.map some) :
    map? read? (ofMembers members) = some (SortedMap.ofLast entries) := by
  have read := congrArg (Option.bind · fun entries => some (SortedMap.ofLast entries)) (mapM_eq_some_iff.mpr reads)
  rw [ofMembers, map?, GivenFields.ofMembers?_map_some]
  exact read

theorem PartitionsSpelled.nullOr?_map?_eq {partitions : Option (SortedMap MountedPartition)} {value : Json.Value}
    (spelled : PartitionsSpelled partitions value) :
    Json.Value.nullOr? (Json.Value.map? MountedPartition.ofJson?) value = some partitions := by
  cases spelled with
  | null => rfl
  | @object partitions entries members perm entriesSpelled =>
      have reads : members.map (fun member => (MountedPartition.ofJson? member.2).map fun partition =>
          (member.1, partition)) = entries.map some := by
        clear perm
        induction entriesSpelled with
        | nil => rfl
        | cons spelled _ ih =>
            rw [List.map_cons, List.map_cons, ih, ← spelled.1, MountedPartition.ofJson?_spelled spelled.2]
            rfl
      have map := Json.Value.map?_ofMembers_of_map reads
      rw [SortedMap.ofLast_of_perm perm] at map
      exact congrArg (Option.map some) map

theorem Device.ofJson?_spelled {device : Device} {value : Json.Value} (spelled : RecordSpelled device.fields value) :
    ofJson? value = some device := by
  have distinct : fieldNames.Nodup := by decide
  obtain ⟨given, members, givenBy⟩ := spelled.exists_given distinct
  simp only [fields, List.forall_mem_cons] at givenBy
  obtain ⟨nameGiven, driver, vendor, model, serial, size, partitionsGiven, _⟩ := givenBy
  have members : GivenFields.ofValue? fieldNames value = some given := members
  have name : given.required? "name" Json.Value.text? = some device.name := by
    rw [GivenFields.required?]
    generalize given.valuesOf "name" = values at nameGiven
    cases nameGiven with
    | leftOut impossible => cases impossible
    | once spelled =>
        obtain rfl := spelled
        rfl
  have partitions : given.withDefault? "partitions"
      (Json.Value.nullOr? (Json.Value.map? MountedPartition.ofJson?)) none = some device.partitions :=
    GivenFields.withDefault?_of_givenBy partitionsGiven id fun _ => PartitionsSpelled.nullOr?_map?_eq
  simp only [ofJson?, members, Option.bind_eq_bind, Option.bind_some, name, partitions,
    GivenFields.optionalText?_of_givenBy driver, GivenFields.optionalText?_of_givenBy vendor,
    GivenFields.optionalText?_of_givenBy model, GivenFields.optionalText?_of_givenBy serial,
    GivenFields.wordOrZero?_of_givenBy size]

end BlockInventory
