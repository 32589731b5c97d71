import BlockInventory.Proofs.Device.RoundTrip

/-!
# Filled texts

The JSON text of a record leaves out what is empty. If the texts in the record are not empty and its map of partitions
is not, then the JSON text holds neither null nor an empty text, neither the number zero nor an object without members.
-/

set_option autoImplicit false

namespace BlockInventory

/-- Nothing in the value is null, an empty text, a number but a positive one, or an object without members. -/
inductive Json.Value.Filled : Json.Value → Prop where
  | boolean {value : Bool} : Filled (.boolean value)
  | number {spelling : List Char} {number : Nat} : Text.Numeral.ofDigits? spelling = some number → number ≠ 0 →
      Filled (.number spelling)
  | string {text : String} : text ≠ "" → Filled (.string (some text))
  | array {items : List Json.Value} : (∀ item ∈ items, Filled item) → Filled (.array items)
  | object {members : List (Option String × Json.Value)} :
      members ≠ [] → (∀ member ∈ members, Filled member.2) → Filled (.object members)

namespace Json.Value

theorem filled_ofMembers {entries : List (String × Value)} (nonempty : entries ≠ [])
    (filled : ∀ entry ∈ entries, Filled entry.2) : Filled (ofMembers entries) := by
  apply Filled.object
  · simpa using nonempty
  · intro member isMember
    obtain ⟨entry, isEntry, rfl⟩ := List.mem_map.mp isMember
    exact filled entry isEntry

theorem filled_ofWord {word : UInt64} (positive : word ≠ 0) : Filled (ofWord word) := by
  apply Filled.number (Text.Numeral.ofDigits?_write word.toNat)
  intro zero
  exact positive (UInt64.toNat_inj.mp zero)

end Json.Value

section Members

variable {name : String} {entry : String × Json.Value}

private theorem filled_of_mem_textMember {text : Option String} (nonempty : text ≠ some "")
    (member : entry ∈ textMember name text) : entry.2.Filled := by
  cases text with
  | none => cases member
  | some text =>
      obtain rfl := List.mem_singleton.mp member
      apply Json.Value.Filled.string
      intro empty
      exact nonempty (congrArg some empty)

private theorem filled_of_mem_sizeMember {size : UInt64} (member : entry ∈ sizeMember name size) : entry.2.Filled := by
  rw [sizeMember] at member
  split at member
  next => cases member
  next positive =>
    obtain rfl := List.mem_singleton.mp member
    exact Json.Value.filled_ofWord positive

end Members

theorem MountedPartition.filled_toJson {partition : MountedPartition} {mountPoint : String}
    (mounted : partition.mountPoint = some mountPoint) (nonempty : mountPoint ≠ "") : partition.toJson.Filled := by
  have nonempty : partition.mountPoint ≠ some "" := by
    rw [mounted]
    exact fun empty => nonempty (Option.some.inj empty)
  apply Json.Value.filled_ofMembers
  · rw [mounted]
    exact List.cons_ne_nil _ _
  · intro entry member
    simp only [List.mem_append] at member
    obtain (mountPoint | size) | available := member
    · exact filled_of_mem_textMember nonempty mountPoint
    · exact filled_of_mem_sizeMember size
    · exact filled_of_mem_sizeMember available

/-- The record holds no empty text and no empty map, and each of its partitions a mount point. -/
structure Device.NoneEmpty (device : Device) : Prop where
  name : device.name ≠ ""
  driver : device.driver ≠ some ""
  vendor : device.vendor ≠ some ""
  model : device.model ≠ some ""
  serial : device.serial ≠ some ""
  partitions : ∀ partitions, device.partitions = some partitions → partitions.entries ≠ []
  mountPoints : ∀ name partition, (name, partition) ∈ device.partitionEntries →
    ∃ mountPoint, partition.mountPoint = some mountPoint ∧ mountPoint ≠ ""

theorem Device.NoneEmpty.filled_partitionsMember {device : Device} (noneEmpty : device.NoneEmpty)
    {entry : String × Json.Value} (member : entry ∈ partitionsMember device.partitions) : entry.2.Filled := by
  cases held : device.partitions with
  | none =>
      rw [held] at member
      cases member
  | some partitions =>
      rw [held] at member
      obtain rfl := List.mem_singleton.mp member
      apply Json.Value.filled_ofMembers
      · simpa using noneEmpty.partitions partitions held
      · intro written isWritten
        obtain ⟨⟨name, partition⟩, isPartition, rfl⟩ := List.mem_map.mp isWritten
        have isEntry : (name, partition) ∈ device.partitionEntries := by
          rw [partitionEntries, held]
          exact isPartition
        obtain ⟨mountPoint, mounted, nonempty⟩ := noneEmpty.mountPoints name partition isEntry
        exact MountedPartition.filled_toJson mounted nonempty

theorem Device.NoneEmpty.filled_toJson {device : Device} (noneEmpty : device.NoneEmpty) : device.toJson.Filled := by
  apply Json.Value.filled_ofMembers
  · exact List.cons_ne_nil _ _
  · intro entry member
    simp only [List.mem_append, List.mem_cons] at member
    obtain (((((rfl | driver) | vendor) | model) | serial) | size) | partitions := member
    · exact .string noneEmpty.name
    · exact filled_of_mem_textMember noneEmpty.driver driver
    · exact filled_of_mem_textMember noneEmpty.vendor vendor
    · exact filled_of_mem_textMember noneEmpty.model model
    · exact filled_of_mem_textMember noneEmpty.serial serial
    · exact filled_of_mem_sizeMember size
    · exact noneEmpty.filled_partitionsMember partitions

end BlockInventory
