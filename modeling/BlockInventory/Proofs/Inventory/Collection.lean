import BlockInventory.Proofs.Inventory.Partitions

/-!
# Collecting the partitions of a device

The rows of the mount table are visited one by one, and each that lies beneath the device puts one partition into a map.
Sources are told apart by what follows the common directory, so every partition comes under a new name: none is lost,
and the order of the visit does not matter. Which mount points are collected does not depend on the unit or on what the
host tells of its free space; these only make the records of the partitions.
-/

set_option autoImplicit false

namespace BlockInventory

/-! ## Filling a map -/

namespace SortedMap

variable {α : Type}

/-- Each of the entries comes under a key that the map does not hold by then. -/
inductive FillsFresh : SortedMap α → List (String × α) → Prop where
  | nil {map : SortedMap α} : FillsFresh map []
  | cons {map : SortedMap α} {key : String} {value : α} {rest : List (String × α)} :
      map.get? key = none → FillsFresh (map.insert key value) rest → FillsFresh map ((key, value) :: rest)

theorem fillsFresh_of_nodup {map : SortedMap α} {entries : List (String × α)}
    (distinct : (entries.map (·.1)).Nodup) (absent : ∀ entry ∈ entries, map.get? entry.1 = none) :
    FillsFresh map entries := by
  induction entries generalizing map with
  | nil => exact .nil
  | cons head rest ih =>
      obtain ⟨unrepeated, restDistinct⟩ := List.nodup_cons.mp distinct
      apply FillsFresh.cons (absent head List.mem_cons_self)
      apply ih restDistinct
      intro entry member
      have different : entry.1 ≠ head.1 := by
        intro same
        exact unrepeated (List.mem_map.mpr ⟨entry, member, same⟩)
      rw [get?_insert, if_neg different]
      exact absent entry (List.mem_cons_of_mem head member)

theorem FillsFresh.size_foldl {map : SortedMap α} {entries : List (String × α)} (fresh : FillsFresh map entries) :
    (entries.foldl (fun map entry => map.insert entry.1 entry.2) map).size = map.size + entries.length := by
  induction fresh with
  | nil => rfl
  | @cons map key value rest absent _ ih =>
      have grown := size_insert absent value
      rw [List.foldl_cons, ih, grown, List.length_cons]
      omega

end SortedMap

namespace MountedPartition

variable {host : Host} {partitions : PartitionTable} {unit : UInt64} {device : List Char}
  {rows others : List (String × String)}

theorem fillsFresh_ofTableRow? (host : Host) (partitions : PartitionTable) (unit : UInt64) (device : List Char)
    (distinct : (rows.map (·.1)).Nodup) :
    SortedMap.FillsFresh .empty (rows.filterMap (ofTableRow? host partitions unit device)) := by
  apply SortedMap.fillsFresh_of_nodup (nodup_names distinct)
  intro entry _
  exact SortedMap.get?_empty entry.1

/-- As many partitions are collected as sources begin with the path of the device. -/
theorem size_ofTableRows (distinct : (rows.map (·.1)).Nodup) :
    (ofTableRows host partitions unit device rows).size =
      rows.countP fun row => (deviceDirectory ++ device).isPrefixOf row.1.toList := by
  have collected := (fillsFresh_ofTableRow? host partitions unit device distinct).size_foldl
  have isSome (row : String × String) : (ofTableRow? host partitions unit device row).isSome =
      (deviceDirectory ++ device).isPrefixOf row.1.toList := by
    by_cases beneath : (deviceDirectory ++ device).isPrefixOf row.1.toList = true
    · simp [ofTableRow?, beneath]
    · simp [ofTableRow?, beneath]
  rw [ofTableRows, SortedMap.ofLast, collected, List.length_filterMap_eq_countP]
  simp only [isSome]
  exact Nat.zero_add _

theorem ofTableRows_eq_of_perm (host : Host) (partitions : PartitionTable) (unit : UInt64) (device : List Char)
    (permuted : rows.Perm others) (distinct : (rows.map (·.1)).Nodup) :
    ofTableRows host partitions unit device rows = ofTableRows host partitions unit device others := by
  have othersDistinct : (others.map (·.1)).Nodup := (permuted.map (·.1)).nodup distinct
  apply SortedMap.ext_get?
  intro name
  apply Option.ext
  intro partition
  rw [get?_ofTableRows_eq_some_iff host partitions unit device distinct,
    get?_ofTableRows_eq_some_iff host partitions unit device othersDistinct]
  simp only [permuted.mem_iff]

/-! ## Mount points, then records -/

/-- The name and the mount point that a row tells of a partition of the device. -/
def mountPointOfRow? (device : List Char) (row : String × String) : Option (String × String) :=
  if (deviceDirectory ++ device).isPrefixOf row.1.toList then
    some (String.ofList (row.1.toList.drop deviceDirectory.length), row.2)
  else none

/-- The mount points beneath a device, by the names of the partitions. -/
def mountPointsOfRows (device : List Char) (rows : List (String × String)) : SortedMap String :=
  .ofLast (rows.filterMap (mountPointOfRow? device))

theorem ofTableRows_eq_mapEntries (host : Host) (partitions : PartitionTable) (unit : UInt64) (device : List Char)
    (rows : List (String × String)) :
    ofTableRows host partitions unit device rows =
      (mountPointsOfRows device rows).mapEntries (ofMount host partitions unit) := by
  have eachRow : ofTableRow? host partitions unit device = fun row =>
      (mountPointOfRow? device row).map fun entry => (entry.1, ofMount host partitions unit entry.1 entry.2) := by
    funext row
    by_cases beneath : (deviceDirectory ++ device).isPrefixOf row.1.toList = true
    · simp [ofTableRow?, mountPointOfRow?, beneath]
    · simp [ofTableRow?, mountPointOfRow?, beneath]
  rw [mountPointsOfRows, ← SortedMap.ofLast_map, List.map_filterMap, ofTableRows, eachRow]

end MountedPartition

theorem Device.partitions?_eq (host : Host) (tables : Tables) (unit : UInt64) (device : List Char) :
    partitions? host tables unit device =
      let mountPoints := MountedPartition.mountPointsOfRows device tables.mounts
      if mountPoints.isEmpty then none
      else some (mountPoints.mapEntries (MountedPartition.ofMount host tables.partitions unit)) := by
  rw [partitions?, MountedPartition.ofTableRows_eq_mapEntries, SortedMap.isEmpty_mapEntries]

end BlockInventory
