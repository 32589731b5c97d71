import BlockInventory.Proofs.Device.Spellings
import BlockInventory.Proofs.Json.Writing

/-!
# Records read back

A record that is written as compact JSON is read as the same record, for what is written is one of its spellings.
-/

set_option autoImplicit false

namespace BlockInventory

variable {α : Type} {name : String}

/-! ## Written members -/

section Written

variable {fields : List RecordField} {members : GivenFields}

theorem MembersFor.textMember {text : Option String} (further : MembersFor fields members) :
    MembersFor (.text name text :: fields) (textMember name text ++ members) := by
  cases text with
  | none => exact .leftOut rfl further
  | some text => exact .member rfl further

theorem MembersFor.sizeMember {size : UInt64} (further : MembersFor fields members) :
    MembersFor (.word name size :: fields) (sizeMember name size ++ members) := by
  unfold BlockInventory.sizeMember
  split
  next zero => exact .leftOut zero further
  next => exact .member rfl further

theorem RecordSpelled.ofMembers (chosen : MembersFor fields members) : RecordSpelled fields (.ofMembers members) :=
  .object chosen (List.forall_mem_nil _) (by rw [List.append_nil])

end Written

namespace Json.Value

theorem spellable_ofMembers {entries : List (String × Value)} (spellable : ∀ entry ∈ entries, Spellable entry.2) :
    Spellable (ofMembers entries) := by
  refine .object fun member isMember => ?_
  obtain ⟨entry, isEntry, rfl⟩ := List.mem_map.mp isMember
  exact spellable entry isEntry

end Json.Value

private theorem spellable_of_mem_textMember {text : Option String} {entry : String × Json.Value}
    (member : entry ∈ textMember name text) : entry.2.Spellable := by
  cases text with
  | none => cases member
  | some text =>
      obtain rfl := List.mem_singleton.mp member
      exact .string (some text)

private theorem spellable_of_mem_sizeMember {size : UInt64} {entry : String × Json.Value}
    (member : entry ∈ sizeMember name size) : entry.2.Spellable := by
  rw [sizeMember] at member
  split at member
  next => cases member
  next =>
    obtain rfl := List.mem_singleton.mp member
    exact .number (Json.isNumber_write size.toNat)

namespace MountedPartition

/-- The fields that are written for a partition. -/
def writtenFields (partition : MountedPartition) : GivenFields :=
  textMember "mountPoint" partition.mountPoint ++ sizeMember "size" partition.size
    ++ sizeMember "availableSize" partition.availableSize

/-- What is written for a partition is one of its spellings. -/
theorem spelled_toJson (partition : MountedPartition) : RecordSpelled partition.fields partition.toJson := by
  have shape : partition.writtenFields =
      textMember "mountPoint" partition.mountPoint ++ (sizeMember "size" partition.size ++
        (sizeMember "availableSize" partition.availableSize ++ [])) := by
    simp only [writtenFields, List.append_assoc, List.append_nil]
  have chosen : MembersFor partition.fields partition.writtenFields := by
    rw [shape]
    exact .textMember (.sizeMember (.sizeMember .nil))
  exact .ofMembers chosen

theorem ofJson?_toJson (partition : MountedPartition) : ofJson? partition.toJson = some partition :=
  ofJson?_spelled partition.spelled_toJson

theorem spellable_toJson (partition : MountedPartition) : partition.toJson.Spellable := by
  refine Json.Value.spellable_ofMembers fun entry member => ?_
  rcases List.mem_append.mp member with earlier | available
  · rcases List.mem_append.mp earlier with mountPoint | size
    · exact spellable_of_mem_textMember mountPoint
    · exact spellable_of_mem_sizeMember size
  · exact spellable_of_mem_sizeMember available

theorem ofJsonText?_compact (partition : MountedPartition) :
    ofJsonText? partition.toJson.compact = some partition := by
  rw [ofJsonText?, partition.spellable_toJson.ofText?_compact]
  exact partition.ofJson?_toJson

end MountedPartition

namespace Device

/-- The fields that are written for a device. -/
def writtenFields (device : Device) : GivenFields :=
  ("name", .ofString device.name) :: textMember "driver" device.driver ++ textMember "vendor" device.vendor
    ++ textMember "model" device.model ++ textMember "serial" device.serial ++ sizeMember "size" device.size
    ++ partitionsMember device.partitions

theorem spelled_toJson (device : Device) : RecordSpelled device.fields device.toJson := by
  have shape : device.writtenFields =
      ("name", .ofString device.name) :: (textMember "driver" device.driver ++ (textMember "vendor" device.vendor ++
        (textMember "model" device.model ++ (textMember "serial" device.serial ++ (sizeMember "size" device.size ++
          partitionsMember device.partitions))))) := by
    simp only [writtenFields, List.append_assoc, List.cons_append]
  have partitions : MembersFor [⟨"partitions", PartitionsSpelled device.partitions, device.partitions = none⟩]
      (partitionsMember device.partitions) := by
    cases device.partitions with
    | none => exact .leftOut rfl .nil
    | some partitions =>
        refine .member (.object (.refl partitions.entries) (List.forall₂_map_right_iff.mpr ?_)) .nil
        exact List.forall₂_same.mpr fun entry _ => ⟨rfl, entry.2.spelled_toJson⟩
  have chosen : MembersFor device.fields device.writtenFields := by
    rw [shape]
    exact .member rfl (.textMember (.textMember (.textMember (.textMember (.sizeMember partitions)))))
  exact .ofMembers chosen

theorem ofJson?_toJson (device : Device) : ofJson? device.toJson = some device :=
  ofJson?_spelled device.spelled_toJson

private theorem spellable_of_mem_partitionsMember {partitions : Option (SortedMap MountedPartition)}
    {entry : String × Json.Value} (member : entry ∈ partitionsMember partitions) : entry.2.Spellable := by
  cases partitions with
  | none => cases member
  | some partitions =>
      obtain rfl := List.mem_singleton.mp member
      refine Json.Value.spellable_ofMembers fun written isWritten => ?_
      obtain ⟨partition, _, rfl⟩ := List.mem_map.mp isWritten
      exact partition.2.spellable_toJson

theorem spellable_toJson (device : Device) : device.toJson.Spellable := by
  apply Json.Value.spellable_ofMembers
  intro entry member
  simp only [List.mem_append, List.mem_cons] at member
  rcases member with (((((rfl | driver) | vendor) | model) | serial) | size) | partitions
  · exact .string (some device.name)
  · exact spellable_of_mem_textMember driver
  · exact spellable_of_mem_textMember vendor
  · exact spellable_of_mem_textMember model
  · exact spellable_of_mem_textMember serial
  · exact spellable_of_mem_sizeMember size
  · exact spellable_of_mem_partitionsMember partitions

theorem ofJsonText?_compact (device : Device) : ofJsonText? device.toJson.compact = some device := by
  rw [ofJsonText?, device.spellable_toJson.ofText?_compact]
  exact device.ofJson?_toJson

end Device

/-! ## Lists -/

theorem Device.listOfJson?_listToJson (devices : List Device) :
    listOfJson? (listToJson devices) = some devices := by
  rw [listToJson, listOfJson?]
  induction devices with
  | nil => rfl
  | cons device devices ih =>
      rw [List.map_cons, List.mapM_cons, ofJson?_toJson, ih]
      rfl

theorem Device.spellable_listToJson (devices : List Device) : (listToJson devices).Spellable := by
  refine .array fun item member => ?_
  obtain ⟨device, _, rfl⟩ := List.mem_map.mp member
  exact device.spellable_toJson

/-! ## Faithful texts -/

/-- Reads a text and writes what was read. -/
def rewrite? (write : α → List Char) (read? : List Char → Option α) (text : List Char) : Option (List Char) :=
  (read? text).map write

/-- The texts of records lose nothing. -/
structure FaithfulText (write : α → List Char) (read? : List Char → Option α) : Prop where
  readsBack (record : α) : read? (write record) = some record
  injective {left right : α} : write left = write right → left = right
  /-- Once a text has been read and written, doing so again changes nothing. -/
  rewriteIdem (text : List Char) :
    (rewrite? write read? text).bind (rewrite? write read?) = rewrite? write read? text

theorem FaithfulText.of_readsBack {write : α → List Char} {read? : List Char → Option α}
    (readsBack : ∀ record, read? (write record) = some record) : FaithfulText write read? where
  readsBack := readsBack
  injective := by
    intro left right same
    have leftRead := readsBack left
    rw [same, readsBack right] at leftRead
    exact (Option.some.inj leftRead).symm
  rewriteIdem := by
    intro text
    cases accepted : read? text with
    | none => simp [rewrite?, accepted]
    | some record => simp [rewrite?, accepted, readsBack record]

/-- Devices and partitions are read back from their compact JSON texts, whatever their fields hold. -/
theorem faithful_compact_texts :
    FaithfulText (fun device : Device => device.toJson.compact) Device.ofJsonText? ∧
      FaithfulText (fun partition : MountedPartition => partition.toJson.compact) MountedPartition.ofJsonText? :=
  ⟨.of_readsBack Device.ofJsonText?_compact, .of_readsBack MountedPartition.ofJsonText?_compact⟩

end BlockInventory
