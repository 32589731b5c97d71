/-!
# Sorted maps

A map from strings, kept as the list of its entries in strictly ascending order of their keys. Strings are
ordered by their characters' code points, which is also the order of their UTF-8 bytes. Since the order is part
of the type, two maps with the same entries are equal.
-/

set_option autoImplicit false

namespace BlockInventory

variable {α : Type}

/-- Entries in strictly ascending order of their keys. -/
def KeysAscend (entries : List (String × α)) : Prop :=
  entries.Pairwise fun left right => left.1 < right.1

/-- Puts an entry in its place, over an entry with the same key if there is one. -/
def insertEntry (key : String) (value : α) : List (String × α) → List (String × α)
  | [] => [(key, value)]
  | entry :: rest =>
    if key < entry.1 then (key, value) :: entry :: rest
    else if key = entry.1 then (key, value) :: rest
    else entry :: insertEntry key value rest

theorem mem_insertEntry {key : String} {value : α} {entry : String × α} {entries : List (String × α)}
    (member : entry ∈ insertEntry key value entries) : entry = (key, value) ∨ entry ∈ entries := by
  induction entries with
  | nil => simpa [insertEntry] using member
  | cons head rest ih =>
    rw [insertEntry] at member
    split at member
    · simpa using member
    · split at member
      · rcases List.mem_cons.mp member with here | there
        · exact .inl here
        · exact .inr (List.mem_cons_of_mem _ there)
      · rcases List.mem_cons.mp member with here | there
        · exact .inr (here ▸ List.mem_cons_self)
        · exact (ih there).imp id (List.mem_cons_of_mem _)

theorem KeysAscend.lt_of_lt_head {head : String × α} {rest : List (String × α)} {key : String}
    (ascend : KeysAscend (head :: rest)) (below : key < head.1) : ∀ entry ∈ head :: rest, key < entry.1 :=
  List.forall_mem_cons.mpr
    ⟨below, fun entry member => String.lt_trans below ((List.pairwise_cons.mp ascend).1 entry member)⟩

theorem KeysAscend.insertEntry {entries : List (String × α)} (ascend : KeysAscend entries)
    (key : String) (value : α) : KeysAscend (insertEntry key value entries) := by
  induction entries with
  | nil => simp [BlockInventory.insertEntry, KeysAscend]
  | cons head rest ih =>
    have later := List.pairwise_cons.mp ascend
    rw [BlockInventory.insertEntry]
    split
    next below => exact List.pairwise_cons.mpr ⟨ascend.lt_of_lt_head below, ascend⟩
    next notBelow =>
      split
      next same => exact List.pairwise_cons.mpr ⟨fun entry member => same ▸ later.1 entry member, later.2⟩
      next different =>
        refine List.pairwise_cons.mpr ⟨fun entry member => ?_, ih later.2⟩
        rcases mem_insertEntry member with rfl | there
        · exact Std.lt_of_le_of_ne (String.not_lt.mp notBelow) (Ne.symm different)
        · exact later.1 entry there

private theorem lookup_cons_eq_if (key : String) (head : String × α) (rest : List (String × α)) :
    (head :: rest).lookup key = if key = head.1 then some head.2 else rest.lookup key := by
  obtain ⟨headKey, headValue⟩ := head
  rw [List.lookup_cons]
  by_cases same : key = headKey
  · rw [if_pos same, beq_iff_eq.mpr same]
  · rw [if_neg same, beq_false_of_ne same]

theorem lookup_insertEntry (key other : String) (value : α) (entries : List (String × α)) :
    (insertEntry key value entries).lookup other
      = if other = key then some value else entries.lookup other := by
  induction entries with
  | nil => simp [insertEntry, lookup_cons_eq_if]
  | cons head rest ih =>
    rw [insertEntry]
    split
    · rw [lookup_cons_eq_if]
    · split
      next sameKey =>
        rw [lookup_cons_eq_if, lookup_cons_eq_if other head, ← sameKey]
        split <;> rfl
      next different =>
        rw [lookup_cons_eq_if, lookup_cons_eq_if other head, ih]
        by_cases found : other = head.1
        · rw [if_pos found, if_pos found, if_neg fun (same : other = key) => different (same ▸ found)]
        · rw [if_neg found, if_neg found]

theorem length_insertEntry {key : String} (value : α) {entries : List (String × α)}
    (fresh : entries.lookup key = none) : (insertEntry key value entries).length = entries.length + 1 := by
  induction entries with
  | nil => rfl
  | cons head rest ih =>
    rw [lookup_cons_eq_if] at fresh
    split at fresh
    next => cases fresh
    next different =>
      rw [insertEntry, if_neg different]
      split
      · rfl
      · rw [List.length_cons, ih fresh, List.length_cons]

theorem lookup_map_entries {β : Type} (f : String → α → β) (entries : List (String × α)) (key : String) :
    (entries.map fun entry => (entry.1, f entry.1 entry.2)).lookup key = (entries.lookup key).map (f key) := by
  induction entries with
  | nil => rfl
  | cons head rest ih =>
    rw [List.map_cons, lookup_cons_eq_if, lookup_cons_eq_if, ih]
    split
    next same => rw [same, Option.map_some]
    next => rfl

theorem lookup_eq_none_of_lt {entries : List (String × α)} {key : String}
    (above : ∀ entry ∈ entries, key < entry.1) : entries.lookup key = none := by
  induction entries with
  | nil => rfl
  | cons head rest ih =>
    have different : key ≠ head.1 := fun same =>
      String.lt_irrefl head.1 (same ▸ above head List.mem_cons_self)
    rw [lookup_cons_eq_if, if_neg different]
    exact ih fun entry member => above entry (List.mem_cons_of_mem _ member)

private theorem KeysAscend.not_head_lt {head other : String × α} {rest others : List (String × α)}
    (ascend : KeysAscend (other :: others))
    (same : (head :: rest).lookup head.1 = (other :: others).lookup head.1) : ¬head.1 < other.1 := by
  intro below
  rw [lookup_cons_eq_if, if_pos rfl, lookup_eq_none_of_lt (ascend.lt_of_lt_head below)] at same
  cases same

/-- Ascending entries are determined by what is looked up in them. -/
theorem KeysAscend.eq_of_lookup_eq {left right : List (String × α)} (leftAscend : KeysAscend left)
    (rightAscend : KeysAscend right) (same : ∀ key, left.lookup key = right.lookup key) :
    left = right := by
  induction left generalizing right with
  | nil =>
    cases right with
    | nil => rfl
    | cons head rest =>
      have looked := same head.1
      rw [lookup_cons_eq_if, if_pos rfl] at looked
      cases looked
  | cons leftHead leftRest ih =>
    obtain ⟨leftAbove, leftRestAscend⟩ := List.pairwise_cons.mp leftAscend
    cases right with
    | nil =>
      have looked := same leftHead.1
      rw [lookup_cons_eq_if, if_pos rfl] at looked
      cases looked
    | cons rightHead rightRest =>
      obtain ⟨rightAbove, rightRestAscend⟩ := List.pairwise_cons.mp rightAscend
      have notBelow : ¬leftHead.1 < rightHead.1 := rightAscend.not_head_lt (same leftHead.1)
      have notAbove : ¬rightHead.1 < leftHead.1 := leftAscend.not_head_lt (same rightHead.1).symm
      have sameKey : leftHead.1 = rightHead.1 :=
        String.le_antisymm (String.not_lt.mp notAbove) (String.not_lt.mp notBelow)
      have sameValue : leftHead.2 = rightHead.2 := by
        have looked := same leftHead.1
        rw [lookup_cons_eq_if, lookup_cons_eq_if, if_pos rfl, if_pos sameKey] at looked
        exact Option.some.inj looked
      have sameRest : leftRest = rightRest := by
        refine ih leftRestAscend rightRestAscend fun key => ?_
        by_cases here : key = leftHead.1
        · rw [here, lookup_eq_none_of_lt leftAbove, lookup_eq_none_of_lt (sameKey ▸ rightAbove)]
        · have looked := same key
          rwa [lookup_cons_eq_if, lookup_cons_eq_if, if_neg here, if_neg (sameKey ▸ here)] at looked
      rw [sameRest, Prod.ext sameKey sameValue]

theorem KeysAscend.nodup_keys {entries : List (String × α)} (ascend : KeysAscend entries) :
    (entries.map (·.1)).Nodup := by
  refine List.pairwise_map.mpr (ascend.imp ?_)
  intro left right below same
  exact String.lt_irrefl right.1 (same ▸ below)

/-- Among entries with different keys, what is looked up is what is there. -/
theorem lookup_eq_some_iff_mem {entries : List (String × α)} (unique : (entries.map (·.1)).Nodup)
    {key : String} {value : α} : entries.lookup key = some value ↔ (key, value) ∈ entries := by
  induction entries with
  | nil => simp
  | cons head rest ih =>
      obtain ⟨headKey, headValue⟩ := head
      obtain ⟨fresh, restUnique⟩ := List.nodup_cons.mp unique
      rw [lookup_cons_eq_if, List.mem_cons]
      by_cases here : key = headKey
      · subst here
        have absent : (key, value) ∉ rest := fun member =>
          fresh (List.mem_map.mpr ⟨_, member, rfl⟩)
        simp [absent, eq_comm]
      · rw [if_neg here, ih restUnique]
        simp [here]

/-- A map from strings whose entries stand in the order of their keys. -/
structure SortedMap (α : Type) where
  entries : List (String × α)
  ascend : KeysAscend entries

namespace SortedMap

instance [DecidableEq α] : DecidableEq (SortedMap α) := fun left right =>
  match left, right with
  | ⟨entries, _⟩, ⟨others, _⟩ =>
    if same : entries = others then .isTrue (by subst same; rfl)
    else .isFalse fun equal => same (congrArg SortedMap.entries equal)

def empty : SortedMap α := ⟨[], .nil⟩

instance : EmptyCollection (SortedMap α) := ⟨empty⟩

/-- The map with one more entry, which takes the place of an entry with the same key. -/
def insert (map : SortedMap α) (key : String) (value : α) : SortedMap α :=
  ⟨insertEntry key value map.entries, map.ascend.insertEntry key value⟩

/-- The map of the entries; of several with one key the last counts. -/
def ofLast (entries : List (String × α)) : SortedMap α :=
  entries.foldl (fun map entry => map.insert entry.1 entry.2) empty

/-- The map of the entries; of several with one key the first counts. -/
def ofFirst (entries : List (String × α)) : SortedMap α :=
  entries.foldr (fun entry map => map.insert entry.1 entry.2) empty

/-- The map of the entries of both; of two with one key that of the first map counts. -/
def union (first second : SortedMap α) : SortedMap α :=
  ofFirst (first.entries ++ second.entries)

def get? (map : SortedMap α) (key : String) : Option α :=
  map.entries.lookup key

def size (map : SortedMap α) : Nat :=
  map.entries.length

def isEmpty (map : SortedMap α) : Bool :=
  map.entries.isEmpty

/-- The map with each value replaced by what a function makes of it and of its key. -/
def mapEntries {β : Type} (f : String → α → β) (map : SortedMap α) : SortedMap β where
  entries := map.entries.map fun entry => (entry.1, f entry.1 entry.2)
  ascend := by
    rw [KeysAscend, List.pairwise_map]
    exact map.ascend

theorem ext_entries {left right : SortedMap α} (same : left.entries = right.entries) : left = right := by
  cases left; cases right; cases same; rfl

theorem ext_get? {left right : SortedMap α} (same : ∀ key, left.get? key = right.get? key) : left = right :=
  ext_entries (left.ascend.eq_of_lookup_eq right.ascend same)

@[simp] theorem get?_empty (key : String) : (empty : SortedMap α).get? key = none := rfl

theorem get?_insert (map : SortedMap α) (key other : String) (value : α) :
    (map.insert key value).get? other = if other = key then some value else map.get? other :=
  lookup_insertEntry key other value map.entries

theorem get?_ofFirst (entries : List (String × α)) (key : String) :
    (ofFirst entries).get? key = entries.lookup key := by
  induction entries with
  | nil => rfl
  | cons head rest ih =>
      rw [lookup_cons_eq_if, ← ih]
      exact get?_insert (ofFirst rest) head.1 key head.2

theorem get?_ofLast (entries : List (String × α)) (key : String) :
    (ofLast entries).get? key = entries.reverse.lookup key := by
  rw [← get?_ofFirst, ofFirst, List.foldr_reverse]
  rfl

theorem get?_union (first second : SortedMap α) (key : String) :
    (first.union second).get? key = (first.get? key).or (second.get? key) := by
  rw [union, get?_ofFirst, List.lookup_append]
  rfl

theorem ofFirst_append (first second : List (String × α)) :
    ofFirst (first ++ second) = (ofFirst first).union (ofFirst second) := by
  refine ext_get? fun key => ?_
  simp only [get?_union, get?_ofFirst, List.lookup_append]

theorem ofLast_append (first second : List (String × α)) :
    ofLast (first ++ second) = (ofLast second).union (ofLast first) := by
  refine ext_get? fun key => ?_
  simp only [get?_union, get?_ofLast, List.reverse_append, List.lookup_append]

theorem get?_ofLast_eq_some_iff {entries : List (String × α)} {key : String} {value : α} :
    (ofLast entries).get? key = some value ↔
      ∃ before after, entries = before ++ (key, value) :: after ∧ ∀ later ∈ after, later.1 ≠ key := by
  rw [get?_ofLast, List.lookup_eq_some_iff]
  constructor
  · rintro ⟨after, before, shape, absent⟩
    refine ⟨before.reverse, after.reverse, ?_, ?_⟩
    · rw [← List.reverse_reverse entries, shape]
      simp
    · intro later member same
      simpa [same] using absent later (List.mem_reverse.mp member)
  · rintro ⟨before, after, rfl, absent⟩
    refine ⟨after.reverse, before.reverse, by simp, ?_⟩
    intro later member
    simpa using (absent later (List.mem_reverse.mp member)).symm

theorem get?_eq_some_iff {map : SortedMap α} {key : String} {value : α} :
    map.get? key = some value ↔ (key, value) ∈ map.entries :=
  lookup_eq_some_iff_mem map.ascend.nodup_keys

theorem get?_ofLast_eq_some_iff_mem {entries : List (String × α)}
    (unique : (entries.map (·.1)).Nodup) {key : String} {value : α} :
    (ofLast entries).get? key = some value ↔ (key, value) ∈ entries := by
  have reversed : (entries.reverse.map (·.1)).Nodup := by
    rw [List.map_reverse, List.Nodup, List.pairwise_reverse]
    exact unique.imp fun different same => different same.symm
  rw [get?_ofLast, lookup_eq_some_iff_mem reversed, List.mem_reverse]

theorem size_insert {map : SortedMap α} {key : String} (fresh : map.get? key = none) (value : α) :
    (map.insert key value).size = map.size + 1 :=
  length_insertEntry value fresh

section MapEntries

variable {β γ : Type} (f : String → α → β)

theorem get?_mapEntries (map : SortedMap α) (key : String) : (map.mapEntries f).get? key = (map.get? key).map (f key) :=
  lookup_map_entries f map.entries key

theorem mapEntries_mapEntries (g : String → β → γ) (map : SortedMap α) :
    (map.mapEntries f).mapEntries g = map.mapEntries fun key value => g key (f key value) := by
  apply ext_entries
  simp only [mapEntries, List.map_map, Function.comp_def]

theorem isEmpty_mapEntries (map : SortedMap α) : (map.mapEntries f).isEmpty = map.isEmpty := by
  simp only [isEmpty, mapEntries, List.isEmpty_map]

theorem ofLast_map (entries : List (String × α)) :
    ofLast (entries.map fun entry => (entry.1, f entry.1 entry.2)) = (ofLast entries).mapEntries f := by
  apply ext_get?
  intro key
  rw [get?_mapEntries, get?_ofLast, get?_ofLast, ← List.map_reverse, lookup_map_entries]

end MapEntries

theorem ofLast_of_perm {map : SortedMap α} {entries : List (String × α)} (perm : entries.Perm map.entries) :
    ofLast entries = map := by
  have unique : (entries.map (·.1)).Nodup := (perm.map (·.1)).nodup_iff.mpr map.ascend.nodup_keys
  refine ext_get? fun key => Option.ext fun value => ?_
  rw [get?_ofLast_eq_some_iff_mem unique, get?_eq_some_iff, perm.mem_iff]

end SortedMap

end BlockInventory
