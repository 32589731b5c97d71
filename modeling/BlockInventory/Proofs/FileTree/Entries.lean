import BlockInventory.FileTree.Access
import BlockInventory.Proofs.Success

/-!
# Entries of a listed directory

A path that goes one name further than the path of a directory leads to the entry of this name: links on the way to
the directory are followed alike, whether or not the path ends there. So what can be read as a link beneath a directory
is among the names that are listed for it.
-/

set_option autoImplicit false

namespace BlockInventory

namespace Path

variable {base : Path} {name : Name}

theorem bytes_join (base : Path) (slashFree : slash ∉ name) :
    (base.join ⟨name⟩).bytes = base.bytes ++ name ∧ (base.bytes = [] ∨ base.bytes.getLast? = some slash) ∨
      (base.join ⟨name⟩).bytes = base.bytes ++ slash :: name := by
  have relative : isAbsolute ⟨name⟩ = false := by
    cases name with
    | nil => rfl
    | cons first rest =>
        refine beq_false_of_ne ?_
        intro same
        exact slashFree (Option.some.inj same ▸ List.mem_cons_self)
  simp only [join, relative, Bool.false_eq_true, if_false]
  split
  next closed => exact .inl ⟨rfl, closed⟩
  next => exact .inr rfl

theorem parts_join (base : Path) (nonempty : name ≠ []) (slashFree : slash ∉ name) :
    (base.join ⟨name⟩).parts = base.parts ++ [name] := by
  have single : (name.splitOn slash).filter (!·.isEmpty) = [name] := by
    simp [List.splitOn_eq_singleton slashFree, nonempty]
  have separated (before : List UInt8) :
      (before ++ slash :: name).splitOn slash = before.splitOn slash ++ name.splitOn slash :=
    List.splitOnP_append_cons before name (beq_self_eq_true slash)
  rcases base.bytes_join slashFree with ⟨bytes, empty | closed⟩ | bytes
  · rw [parts, parts, bytes, empty, List.nil_append, single]
    rfl
  · obtain ⟨before, shape⟩ := List.getLast?_eq_some_iff.mp closed
    have beforeParts : (before ++ [slash]).splitOn slash = before.splitOn slash ++ [[]] :=
      List.splitOnP_append_cons before [] (beq_self_eq_true slash)
    rw [parts, parts, bytes, shape, beforeParts, List.append_assoc, List.singleton_append, separated,
      List.filter_append, single, List.filter_append]
    simp
  · rw [parts, parts, bytes, separated, List.filter_append, single]

theorem steps_join (base : Path) (nonempty : name ≠ []) (slashFree : slash ∉ name) :
    (base.join ⟨name⟩).steps = base.parts.map stepOf ++ [stepOf name] := by
  have last : name.getLast? ≠ some slash := fun closed => slashFree (List.mem_of_getLast? closed)
  have unclosed (before : List UInt8) : ((before ++ name).getLast? == some slash) = false := by
    simp [List.getLast?_append, nonempty, last]
  have ends : (base.join ⟨name⟩).asksForDirectory = false := by
    rcases base.bytes_join slashFree with ⟨bytes, _⟩ | bytes
    · rw [asksForDirectory, bytes, unclosed]
    · rw [asksForDirectory, bytes, List.append_cons, unclosed]
  rw [steps, parts_join base nonempty slashFree, ends, List.map_append]
  simp

end Path

namespace Node

theorem descend?_append_singleton (node : Node) (names : List Name) (name : Name) :
    node.descend? (names ++ [name]) =
      match node.descend? names with
      | some (.directory entries) => entries.lookup name
      | _ => none := by
  induction names generalizing node with
  | nil =>
      cases node with
      | file content => rfl
      | link target => rfl
      | directory entries =>
          simp only [List.nil_append, descend?]
          cases entries.lookup name with
          | none => rfl
          | some inner => simp
  | cons first names ih =>
      cases node with
      | file content => rfl
      | link target => rfl
      | directory entries =>
          rw [List.cons_append, descend?, descend?]
          cases entries.lookup first with
          | none => rfl
          | some inner => exact ih inner

end Node

namespace FileTree

variable {tree : FileTree} {place reached : Place} {entries : List (Name × Node)} {name : Name} {target path : Path}

theorem node?_cons (tree : FileTree) (name : Name) (place : Place) :
    tree.node? (name :: place) =
      match tree.node? place with
      | some (.directory entries) => entries.lookup name
      | _ => none := by
  rw [node?, List.reverse_cons, Node.descend?_append_singleton]
  rfl

/-- What lies above a directory is a directory. -/
theorem node?_tail_ne_link (directory : tree.node? place = some (.directory entries)) :
    tree.node? place.tail ≠ some (.link target) := by
  cases place with
  | nil =>
      rw [List.tail_nil, directory]
      intro same
      cases same
  | cons name place =>
      rw [node?_cons] at directory
      intro link
      rw [List.tail_cons] at link
      rw [link] at directory
      cases directory

theorem place?_eq_ok_iff {followLast : Bool} :
    tree.place? followLast path = .ok place ↔
      fault? path = none ∧ tree.walk followLast mostLinks (tree.start path) path.steps = .ok place := by
  unfold place?
  cases fault? path with
  | some error => simp
  | none => simp [mapError_eq_ok_iff]

theorem list_eq_ok_iff {names : List Name} :
    tree.list path = .ok names ↔
      ∃ place entries, tree.place? true path = .ok place ∧ tree.node? place = some (.directory entries) ∧
        entries.map (·.1) = names := by
  simp only [list, open?, bind_eq_ok_iff]
  constructor
  · intro success
    obtain ⟨_, ⟨place, found, opened⟩, listed⟩ := success
    cases node : tree.node? place with
    | none =>
        rw [node] at opened
        cases opened
    | some inner =>
        rw [node] at opened
        cases inner with
        | link target => cases opened
        | file content =>
            cases opened
            cases listed
        | directory entries =>
            cases opened
            cases listed
            exact ⟨place, entries, found, node, rfl⟩
  · intro listed
    obtain ⟨place, entries, found, node, rfl⟩ := listed
    exact ⟨.directory entries, ⟨place, found, by rw [node]⟩, rfl⟩

theorem readLink_eq_ok_iff :
    tree.readLink path = .ok target ↔
      ∃ place, tree.place? false path = .ok place ∧ tree.node? place = some (.link target) := by
  rw [readLink, bind_eq_ok_iff]
  refine exists_congr fun place => and_congr_right fun _ => ?_
  cases tree.node? place with
  | none => simp
  | some inner => cases inner <;> simp

/-! ## Walks that go on -/

/-- What walking further steps comes to after a walk that followed every link: the same failure, or a walk from where
it led, with fewer links to follow. -/
structure GoesOn (tree : FileTree) (followLast : Bool) (further : List Step) (before whole : Except SystemError Place) :
    Prop where
  fails : ∀ error, before = .error error → whole = .error error
  goes : ∀ reached, before = .ok reached → ∃ links, whole = tree.walk followLast links reached further

private theorem goesOn_error {followLast : Bool} {further : List Step} (error : SystemError) :
    tree.GoesOn followLast further (.error error) (.error error) where
  fails := fun _ same => same
  goes := by
    intro reached ended
    cases ended

theorem walk_eq_advance (tree : FileTree) (followLast : Bool) (links : Nat) :
    ∃ follow, tree.walk followLast links = tree.advance followLast follow := by
  cases links with
  | zero => exact ⟨_, rfl⟩
  | succ links => exact ⟨_, rfl⟩

private theorem advance_goesOn {followLast : Bool} {further : List Step} (nonempty : further ≠ []) {links : Nat}
    {follow followOn : Place → List Step → Except SystemError Place}
    (onward : tree.walk followLast links = tree.advance followLast followOn)
    (follows : ∀ place steps, tree.GoesOn followLast further (follow place steps) (followOn place (steps ++ further)))
    (place : Place) (steps : List Step) :
    tree.GoesOn followLast further (tree.advance true follow place steps)
      (tree.advance followLast followOn place (steps ++ further)) := by
  -- Both walks take the same steps; at a link, `follows` tells of the rest with one link fewer.
  induction steps generalizing place with
  | nil =>
      rw [advance, List.nil_append, ← onward]
      constructor
      · intro error failed
        cases failed
      · intro reached here
        cases here
        exact ⟨links, rfl⟩
  | cons step steps ih =>
      rw [List.cons_append, advance, advance]
      cases tree.node? place with
      | none => exact goesOn_error _
      | some node =>
          cases node with
          | file content => exact goesOn_error _
          | link target => exact goesOn_error _
          | directory entries =>
              cases step with
              | stay => exact ih place
              | parent => exact ih place.tail
              | down name =>
                  dsimp only
                  split
                  · exact goesOn_error _
                  · cases entries.lookup name with
                    | none => exact goesOn_error _
                    | some inner =>
                        cases inner with
                        | file content => exact ih (name :: place)
                        | directory inner => exact ih (name :: place)
                        | link target =>
                            have goes := follows (targetStart place target) (target.steps ++ steps)
                            rw [List.append_assoc] at goes
                            simpa [nonempty] using goes

theorem walk_goesOn (tree : FileTree) (followLast : Bool) {further : List Step} (nonempty : further ≠ [])
    (links : Nat) (place : Place) (steps : List Step) :
    tree.GoesOn followLast further (tree.walk true links place steps)
      (tree.walk followLast links place (steps ++ further)) := by
  induction links generalizing place steps with
  | zero =>
      have onward : tree.walk followLast 0 = tree.advance followLast fun _ _ => .error .tooManyLinks := rfl
      exact advance_goesOn nonempty onward (fun _ _ => goesOn_error _) place steps
  | succ links ih =>
      have onward : tree.walk followLast (links + 1) = tree.advance followLast (tree.walk followLast links) := rfl
      exact advance_goesOn nonempty onward ih place steps

theorem walk_stay {followLast : Bool} {links : Nat} (walked : tree.walk followLast links place [.stay] = .ok reached) :
    reached = place ∧ ∃ entries, tree.node? place = some (.directory entries) := by
  obtain ⟨follow, advances⟩ := tree.walk_eq_advance followLast links
  rw [advances, advance] at walked
  cases found : tree.node? place with
  | none =>
      rw [found] at walked
      cases walked
  | some node =>
      rw [found] at walked
      cases node with
      | file content => cases walked
      | link target => cases walked
      | directory entries =>
          cases walked
          exact ⟨rfl, entries, rfl⟩

/-- A last step that stays leads where the steps before it lead. -/
theorem walk_of_append_stay {links : Nat} {steps : List Step}
    (walked : tree.walk true links place (steps ++ [.stay]) = .ok reached) :
    tree.walk true links place steps = .ok reached := by
  obtain ⟨fails, goes⟩ := tree.walk_goesOn true (List.cons_ne_nil .stay []) links place steps
  cases before : tree.walk true links place steps with
  | error error =>
      rw [fails error before] at walked
      cases walked
  | ok nearer =>
      obtain ⟨left, onward⟩ := goes nearer before
      rw [onward] at walked
      rw [(walk_stay walked).1]

/-- Whether a path ends in a slash makes no difference to a place that it leads to. -/
theorem walk_parts {links : Nat} (walked : tree.walk true links place path.steps = .ok reached) :
    tree.walk true links place (path.parts.map Path.stepOf) = .ok reached := by
  rw [Path.steps] at walked
  cases ends : path.asksForDirectory with
  | true =>
      rw [ends, if_pos rfl] at walked
      exact walk_of_append_stay walked
  | false => simpa [ends] using walked

theorem start_join (tree : FileTree) {base : Path} (nonempty : base.bytes ≠ []) (slashFree : Path.slash ∉ name) :
    tree.start (base.join ⟨name⟩) = tree.start base := by
  obtain ⟨first, rest, shape⟩ := List.exists_cons_of_ne_nil nonempty
  have same : (base.join ⟨name⟩).isAbsolute = base.isAbsolute := by
    rcases base.bytes_join slashFree with ⟨bytes, _⟩ | bytes
    · simp [Path.isAbsolute, bytes, shape]
    · simp [Path.isAbsolute, bytes, shape]
  rw [start, start, same]

/-- A step that leads from a directory to a link is a step down to one of its entries. -/
theorem down_of_walk_to_link {links : Nat} {step : Step} (directory : tree.node? place = some (.directory entries))
    (walked : tree.walk false links place [step] = .ok reached)
    (link : tree.node? reached = some (.link target)) : ∃ name ∈ entries.map (·.1), step = .down name := by
  obtain ⟨follow, advances⟩ := tree.walk_eq_advance false links
  rw [advances, advance, directory] at walked
  cases step with
  | stay =>
      cases walked
      rw [directory] at link
      cases link
  | parent =>
      cases walked
      exact absurd link (node?_tail_ne_link directory)
  | down name =>
      dsimp only at walked
      split at walked
      next => cases walked
      next =>
        cases found : entries.lookup name with
        | none =>
            rw [found] at walked
            cases walked
        | some node =>
            obtain ⟨before, after, shape, _⟩ := List.lookup_eq_some_iff.mp found
            exact ⟨name, by simp [shape], rfl⟩

/-- A path that ends in a slash leads to no link, so what is read as a link beneath a directory has a name. -/
theorem readLink_join_nil_ne_ok (tree : FileTree) (directory target : Path) :
    tree.readLink (directory.join ⟨[]⟩) ≠ .ok target := by
  intro read
  obtain ⟨place, found, link⟩ := readLink_eq_ok_iff.mp read
  obtain ⟨faultless, walked⟩ := place?_eq_ok_iff.mp found
  have closed : (directory.join ⟨[]⟩).bytes.getLast? = some Path.slash := by
    obtain ⟨bytes, empty | closed⟩ | bytes := directory.bytes_join List.not_mem_nil
    · rw [empty, List.append_nil] at bytes
      simp [fault?, bytes] at faultless
    · rw [bytes, List.append_nil, closed]
    · rw [bytes, List.getLast?_concat]
  have steps : (directory.join ⟨[]⟩).steps = (directory.join ⟨[]⟩).parts.map Path.stepOf ++ [.stay] := by
    simp [Path.steps, Path.asksForDirectory, closed]
  rw [steps] at walked
  obtain ⟨fails, goes⟩ := tree.walk_goesOn false (List.cons_ne_nil .stay []) mostLinks
    (tree.start (directory.join ⟨[]⟩)) ((directory.join ⟨[]⟩).parts.map Path.stepOf)
  cases before : tree.walk true mostLinks (tree.start (directory.join ⟨[]⟩))
      ((directory.join ⟨[]⟩).parts.map Path.stepOf) with
  | error error =>
      rw [fails error before] at walked
      cases walked
  | ok nearer =>
      obtain ⟨left, onward⟩ := goes nearer before
      rw [onward] at walked
      obtain ⟨rfl, entries, node⟩ := walk_stay walked
      rw [node] at link
      cases link

theorem mem_of_readLink_join {directory : Path} {names : List Name} (listed : tree.list directory = .ok names)
    (nonempty : name ≠ []) (slashFree : Path.slash ∉ name)
    (read : tree.readLink (directory.join ⟨name⟩) = .ok target) : name ∈ names := by
  obtain ⟨place, entries, found, node, rfl⟩ := list_eq_ok_iff.mp listed
  obtain ⟨reached, foundLink, link⟩ := readLink_eq_ok_iff.mp read
  obtain ⟨faultless, walked⟩ := place?_eq_ok_iff.mp found
  obtain ⟨_, walkedLink⟩ := place?_eq_ok_iff.mp foundLink
  have directoryNonempty : directory.bytes ≠ [] := by
    intro empty
    simp [fault?, empty] at faultless
  rw [start_join tree directoryNonempty slashFree, directory.steps_join nonempty slashFree] at walkedLink
  have goesOn := tree.walk_goesOn false (List.cons_ne_nil (Path.stepOf name) []) mostLinks
    (tree.start directory) (directory.parts.map Path.stepOf)
  obtain ⟨links, onward⟩ := goesOn.goes place (walk_parts walked)
  rw [onward] at walkedLink
  obtain ⟨entry, member, down⟩ := down_of_walk_to_link node walkedLink link
  rw [Path.stepOf] at down
  split at down
  next => cases down
  next =>
    split at down
    next => cases down
    next =>
      cases down
      exact member

end FileTree

end BlockInventory
