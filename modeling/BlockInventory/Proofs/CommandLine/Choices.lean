import BlockInventory.Proofs.CommandLine.Arguments
import BlockInventory.Text.Blank

/-!
# Choices and their spellings

What arguments choose, in their order: values for settings and the demand for JSON. A setting may be spelled with its
value behind an equals sign or in the next argument. However choices are spelled, reading makes them one after another,
and one that is not about a setting leaves that setting alone.
-/

set_option autoImplicit false

namespace BlockInventory.CommandLine

inductive Choice where
  | set (setting : Setting) (value : String)
  | json

def Choice.setting? : Choice → Option Setting
  | .set setting _ => some setting
  | .json => none

/-- The arguments spell the choices. -/
inductive Spells : List String → List Choice → Prop where
  | nil : Spells [] []
  | apart {setting : Setting} {value : String} {arguments : List String} {choices : List Choice} :
      shapeOf value.toList = .plain → Spells arguments choices →
      Spells (setting.flag :: value :: arguments) (.set setting value :: choices)
  | joined {setting : Setting} {value : String} {arguments : List String} {choices : List Choice} :
      Spells arguments choices → Spells ((setting.flag ++ "=" ++ value) :: arguments) (.set setting value :: choices)
  | json {arguments : List String} {choices : List Choice} :
      Spells arguments choices → Spells ("--json" :: arguments) (.json :: choices)

namespace Given

def choose (given : Given) : Choice → Except UsageError Given
  | .set setting value => given.set setting value
  | .json => given.askJson

def chooseAll (given : Given) (choices : List Choice) : Except UsageError Given :=
  choices.foldlM choose given

theorem chooseAll_append (given : Given) (choices others : List Choice) :
    given.chooseAll (choices ++ others) = given.chooseAll choices >>= (·.chooseAll others) :=
  List.foldlM_append

theorem chooseAll_append_cons (given : Given) (before : List Choice) (choice : Choice) (after : List Choice) :
    given.chooseAll (before ++ choice :: after) =
      given.chooseAll before >>= fun next => next.choose choice >>= (·.chooseAll after) := by
  rw [chooseAll_append]
  rfl

end Given

/-! ## Reading -/

namespace Setting

def name (setting : Setting) : List Char :=
  setting.flag.toList.drop 2

theorem ofName?_name (setting : Setting) : ofName? setting.name = some setting := by
  cases setting <;> decide +kernel

theorem toList_flag (setting : Setting) : setting.flag.toList = '-' :: '-' :: setting.name := by
  cases setting <;> decide +kernel

theorem name_ne_nil (setting : Setting) : setting.name ≠ [] := by
  cases setting <;> decide +kernel

theorem equalsSign_not_mem_name (setting : Setting) : '=' ∉ setting.name := by
  cases setting <;> decide +kernel

theorem shapeOf_flag (setting : Setting) : shapeOf setting.flag.toList = .long setting.name none :=
  shapeOf_eq_long_iff.mpr ⟨setting.toList_flag, setting.name_ne_nil, setting.equalsSign_not_mem_name⟩

theorem shapeOf_assigned (setting : Setting) (value : String) :
    shapeOf (setting.flag ++ "=" ++ value).toList = .long setting.name (some value.toList) := by
  have text : (setting.flag ++ "=" ++ value).toList = '-' :: '-' :: (setting.name ++ '=' :: value.toList) := by
    have sign : "=".toList = ['='] := by decide +kernel
    rw [String.toList_append, String.toList_append, setting.toList_flag, sign, List.append_assoc]
    rfl
  have before : ∀ character ∈ setting.name, (character != '=') = true := by
    intro character member
    refine bne_iff_ne.mpr ?_
    rintro rfl
    exact setting.equalsSign_not_mem_name member
  rw [text]
  unfold shapeOf
  split
  next same =>
    have nothing := (List.cons.inj (List.cons.inj same).2).2
    cases (List.append_eq_nil_iff.mp nothing).2
  next rest _ same =>
    obtain rfl := (List.cons.inj (List.cons.inj same).2).2
    rw [Text.dropWhile_append_cons before rfl, Text.takeWhile_append_cons before rfl]
  next other same => exact (other (List.cons.inj (List.cons.inj same).2).1.symm).elim
  next other _ => exact (other _ rfl).elim

end Setting

/-- Reading what spells choices makes them one after another. -/
theorem readArguments_of_spells {arguments : List String} {choices : List Choice} (spells : Spells arguments choices)
    (given : Given) :
    readArguments given none arguments = (given.chooseAll choices).map fun given => .list given.toArguments := by
  induction spells generalizing given with
  | nil => rfl
  | @apart setting value arguments choices plain _ ih =>
      simp only [readArguments, setting.shapeOf_flag, Setting.ofName?_name, plain, Given.chooseAll, List.foldlM_cons,
        Given.choose]
      cases given.set setting value with
      | error error => rfl
      | ok next => exact ih next
  | @joined setting value arguments choices _ ih =>
      simp only [readArguments, setting.shapeOf_assigned, Setting.ofName?_name, String.ofList_toList, Given.chooseAll,
        List.foldlM_cons, Given.choose]
      cases given.set setting value with
      | error error => rfl
      | ok next => exact ih next
  | @json arguments choices _ ih =>
      have demand : shapeOf "--json".toList = .long "json".toList none :=
        shapeOf_eq_long_iff.mpr ⟨by decide +kernel, by decide +kernel, by decide +kernel⟩
      have noSetting : Setting.ofName? "json".toList = none := by decide +kernel
      simp only [readArguments, demand, noSetting, if_true, Given.chooseAll, List.foldlM_cons, Given.choose]
      cases given.askJson with
      | error error => rfl
      | ok next => exact ih next

/-! ## Settings that are left alone -/

namespace Given

def withConfig (config : Option String) (given : Given) : Given :=
  { given with config }

def withUnit (unit : Option UInt64) (given : Given) : Given :=
  { given with unit }

variable {given next : Given} {choice : Choice} {choices : List Choice}

theorem choose_withConfig (other : choice.setting? ≠ some .config) (config : Option String) (given : Given) :
    (given.withConfig config).choose choice = (given.choose choice).map (withConfig config) := by
  cases choice with
  | json =>
      obtain ⟨_, _, _, json⟩ := given
      cases json <;> rfl
  | set setting value =>
      cases setting with
      | config => exact absurd rfl other
      | root =>
          simp only [choose, set, withConfig]
          cases path? .root given.root value <;> rfl
      | unit =>
          obtain ⟨_, _, unit, _⟩ := given
          simp only [choose, set, withConfig]
          cases Text.Numeral.read? value.toList with
          | none => rfl
          | some _ => cases unit <;> rfl

theorem choose_withUnit (other : choice.setting? ≠ some .unit) (unit : Option UInt64) (given : Given) :
    (given.withUnit unit).choose choice = (given.choose choice).map (withUnit unit) := by
  cases choice with
  | json =>
      obtain ⟨_, _, _, json⟩ := given
      cases json <;> rfl
  | set setting value =>
      cases setting with
      | unit => exact absurd rfl other
      | root =>
          simp only [choose, set, withUnit]
          cases path? .root given.root value <;> rfl
      | config =>
          simp only [choose, set, withUnit]
          cases path? .config given.config value <;> rfl

/-- A change that every choice leaves alone may be made before or after all of them. -/
theorem chooseAll_comm {change : Given → Given}
    (commutes : ∀ choice ∈ choices, ∀ given : Given, (change given).choose choice = (given.choose choice).map change)
    (given : Given) : (change given).chooseAll choices = (given.chooseAll choices).map change := by
  induction choices generalizing given with
  | nil => rfl
  | cons choice choices ih =>
      obtain ⟨first, others⟩ := List.forall_mem_cons.mp commutes
      simp only [chooseAll, List.foldlM_cons, first]
      cases given.choose choice with
      | error error => rfl
      | ok next => exact ih others next

theorem chooseAll_withConfig (others : ∀ choice ∈ choices, choice.setting? ≠ some .config) (config : Option String)
    (given : Given) : (given.withConfig config).chooseAll choices = (given.chooseAll choices).map (withConfig config) :=
  chooseAll_comm (fun choice member => choose_withConfig (others choice member) config) given

theorem chooseAll_withUnit (others : ∀ choice ∈ choices, choice.setting? ≠ some .unit) (unit : Option UInt64)
    (given : Given) : (given.withUnit unit).chooseAll choices = (given.chooseAll choices).map (withUnit unit) :=
  chooseAll_comm (fun choice member => choose_withUnit (others choice member) unit) given

theorem config_of_chooseAll (others : ∀ choice ∈ choices, choice.setting? ≠ some .config)
    (made : given.chooseAll choices = .ok next) : next.config = given.config := by
  have unchanged : given.withConfig given.config = given := rfl
  have same := chooseAll_withConfig others given.config given
  rw [unchanged, made] at same
  calc next.config
    _ = (next.withConfig given.config).config := congrArg config (Except.ok.inj same)
    _ = given.config := rfl

theorem unit_of_chooseAll (others : ∀ choice ∈ choices, choice.setting? ≠ some .unit)
    (made : given.chooseAll choices = .ok next) : next.unit = given.unit := by
  have unchanged : given.withUnit given.unit = given := rfl
  have same := chooseAll_withUnit others given.unit given
  rw [unchanged, made] at same
  calc next.unit
    _ = (next.withUnit given.unit).unit := congrArg unit (Except.ok.inj same)
    _ = given.unit := rfl

/-! ## Settings that are made -/

theorem choose_config {file : String} (absent : given.config = none) (nonempty : file ≠ "") :
    given.choose (.set .config file) = .ok (given.withConfig (some file)) := by
  simp only [choose, set, path?, absent, if_neg nonempty, Option.isSome_none, Bool.false_eq_true, if_false]
  rfl

theorem config_of_choose {file : String} (made : given.choose (.set .config file) = .ok next) :
    next.config = some file := by
  obtain ⟨path, given, rfl⟩ := map_eq_ok_iff.mp made
  unfold path? at given
  split at given
  next => cases given
  next =>
    split at given
    next => cases given
    next => exact (Except.ok.inj given).symm

theorem choose_unit {unit : UInt64} (absent : given.unit = none) :
    given.choose (.set .unit (String.ofList (Text.Numeral.write unit.toNat))) = .ok (given.withUnit (some unit)) := by
  simp only [choose, set, String.toList_ofList, Text.Numeral.read?_write, absent, Option.isSome_none,
    Bool.false_eq_true, if_false]
  rfl

theorem unit_isSome_of_choose (made : given.choose choice = .ok next)
    (settled : given.unit.isSome ∨ choice.setting? = some .unit) : next.unit.isSome := by
  by_cases about : choice.setting? = some .unit
  · cases choice with
    | json => cases about
    | set setting value =>
        obtain rfl := Option.some.inj about
        simp only [choose, set] at made
        split at made
        next => cases made
        next =>
          split at made
          next => cases made
          next =>
            cases made
            rfl
  · have made : given.chooseAll [choice] = .ok next := by
      simp only [chooseAll, List.foldlM_cons, List.foldlM_nil, made]
      rfl
    rw [unit_of_chooseAll (List.forall_mem_singleton.mpr about) made]
    exact settled.resolve_right about

theorem unit_isSome_of_chooseAll (made : given.chooseAll choices = .ok next)
    (settled : given.unit.isSome ∨ ∃ choice ∈ choices, choice.setting? = some .unit) : next.unit.isSome := by
  induction choices generalizing given with
  | nil =>
      cases made
      simpa using settled
  | cons choice choices ih =>
      simp only [chooseAll, List.foldlM_cons] at made
      obtain ⟨between, first, others⟩ := bind_eq_ok_iff.mp made
      apply ih others
      rcases settled with given | ⟨other, member, about⟩
      · exact .inl (unit_isSome_of_choose first (.inl given))
      · rcases List.mem_cons.mp member with rfl | later
        · exact .inl (unit_isSome_of_choose first (.inr about))
        · exact .inr ⟨other, later, about⟩

end Given

end BlockInventory.CommandLine
