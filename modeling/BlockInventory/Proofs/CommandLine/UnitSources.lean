import BlockInventory.Proofs.CommandLine.Choices
import BlockInventory.Proofs.CommandLine.Runs
import BlockInventory.Proofs.Config
import BlockInventory.Proofs.Inventory.Failures

/-!
# Where the unit comes from

A unit can be given by the arguments or by a configuration file. It does not matter to a run which of the two gives it;
where both do, the file only has to load.
-/

set_option autoImplicit false

namespace BlockInventory

/-! ## A file that gives a unit -/

namespace Config

theorem load_of_readBytes {files : FileTree} {path : Path} {text : List Char}
    (read : files.readBytes path = .ok (Text.Utf8.encode text)) : load files path = ofText text := by
  rw [load, FileTree.readText_eq_ok_iff.mpr read]

theorem ne_empty_of_load {files : FileTree} {file : String} {config : Config}
    (load : Config.load files (.ofString file) = .ok config) : file ≠ "" := by
  rintro rfl
  cases load

end Config

namespace CommandLine

/-! ## Runs -/

/-- What was given asks for the same run. -/
def AskAlike (host : Host) (left right : Given) : Prop :=
  left.toArguments.run host = right.toArguments.run host

theorem AskAlike.intro {host : Host} {left right : Given} (root : left.root = right.root)
    (json : left.json = right.json)
    (configuration : left.toArguments.configuration host.files = right.toArguments.configuration host.files) :
    AskAlike host left right := by
  have sameRoot : left.toArguments.root = right.toArguments.root := congrArg (·.getD "/") root
  have sameForm : left.toArguments.json = right.toArguments.json := json
  unfold AskAlike Arguments.run Arguments.devices Arguments.render
  rw [configuration, sameRoot, sameForm]

section Runs

variable {host : Host} {arguments others : List String} {choices otherChoices before after : List Choice}
  {file : String}

theorem run_eq_run_of_spells (spells : Spells arguments choices) (othersSpell : Spells others otherChoices)
    (alike : SameOutcome (AskAlike host) (({} : Given).chooseAll choices) (({} : Given).chooseAll otherChoices)) :
    run host arguments = run host others := by
  simp only [run, Request.ofArguments, readArguments_of_spells spells, readArguments_of_spells othersSpell]
  generalize ({} : Given).chooseAll choices = first at alike ⊢
  generalize ({} : Given).chooseAll otherChoices = second at alike ⊢
  cases alike with
  | error => rfl
  | ok alike => exact alike

variable (noConfig : ∀ choice ∈ before ++ after, choice.setting? ≠ some .config)

include noConfig

/-- A unit in a file is as good as one in the arguments. -/
theorem alike_of_unitFile {unit : UInt64} (noUnit : ∀ choice ∈ before ++ after, choice.setting? ≠ some .unit)
    (load : Config.load host.files (.ofString file) = .ok { unit }) :
    SameOutcome (AskAlike host) (({} : Given).chooseAll (before ++ .set .config file :: after))
      (({} : Given).chooseAll
        (before ++ .set .unit (String.ofList (Text.Numeral.write unit.toNat)) :: after)) := by
  obtain ⟨noConfigBefore, noConfigAfter⟩ := List.forall_mem_append.mp noConfig
  obtain ⟨noUnitBefore, noUnitAfter⟩ := List.forall_mem_append.mp noUnit
  -- The choices before leave both settings open, and those after leave alone what was made of them.
  rw [Given.chooseAll_append_cons, Given.chooseAll_append_cons]
  refine .bind _ fun given made => ?_
  have noConfigYet : given.config = none := Given.config_of_chooseAll noConfigBefore made
  have noUnitYet : given.unit = none := Given.unit_of_chooseAll noUnitBefore made
  rw [Given.choose_config noConfigYet (Config.ne_empty_of_load load), Given.choose_unit noUnitYet]
  change SameOutcome _ ((given.withConfig (some file)).chooseAll after) ((given.withUnit (some unit)).chooseAll after)
  rw [Given.chooseAll_withConfig noConfigAfter, Given.chooseAll_withUnit noUnitAfter]
  refine .map _ fun next made => ?_
  have noConfigEver : next.config = none := (Given.config_of_chooseAll noConfigAfter made).trans noConfigYet
  have noUnitEver : next.unit = none := (Given.unit_of_chooseAll noUnitAfter made).trans noUnitYet
  refine .intro (by rfl) (by rfl) ?_
  rw [Arguments.configuration_of_loaded (Arguments.loaded_of_load rfl load),
    Arguments.configuration_of_loaded (Arguments.loaded_of_absent noConfigEver)]
  simp only [Given.toArguments, Given.withConfig, Given.withUnit, noUnitEver, Option.getD_none, Option.getD_some]

/-- Beside a unit in the arguments, a file only has to load. -/
theorem alike_of_unitGiven {config : Config} (unitGiven : ∃ choice ∈ before ++ after, choice.setting? = some .unit)
    (load : Config.load host.files (.ofString file) = .ok config) :
    SameOutcome (AskAlike host) (({} : Given).chooseAll (before ++ .set .config file :: after))
      (({} : Given).chooseAll (before ++ after)) := by
  obtain ⟨noConfigBefore, noConfigAfter⟩ := List.forall_mem_append.mp noConfig
  rw [Given.chooseAll_append_cons, Given.chooseAll_append]
  refine .bind _ fun given made => ?_
  have noConfigYet : given.config = none := Given.config_of_chooseAll noConfigBefore made
  have asBefore : given = given.withConfig none := by rw [← noConfigYet]; rfl
  rw [Given.choose_config noConfigYet (Config.ne_empty_of_load load)]
  change SameOutcome _ ((given.withConfig (some file)).chooseAll after) (given.chooseAll after)
  nth_rewrite 2 [asBefore]
  rw [Given.chooseAll_withConfig noConfigAfter, Given.chooseAll_withConfig noConfigAfter]
  refine .map _ fun next madeAfter => ?_
  have all : ({} : Given).chooseAll (before ++ after) = .ok next := by
    rw [Given.chooseAll_append, made]
    exact madeAfter
  obtain ⟨unit, given⟩ := Option.isSome_iff_exists.mp (Given.unit_isSome_of_chooseAll all (.inr unitGiven))
  refine .intro (by rfl) (by rfl) ?_
  rw [Arguments.configuration_of_loaded (Arguments.loaded_of_load rfl load),
    Arguments.configuration_of_loaded (Arguments.loaded_of_absent rfl)]
  simp only [Given.toArguments, Given.withConfig, given, Option.getD_some]

theorem config_of_spells {parsed : Arguments} (spells : Spells arguments (before ++ .set .config file :: after))
    (accepted : Request.ofArguments arguments = .ok (.list parsed)) : parsed.config = some file := by
  rw [Request.ofArguments, readArguments_of_spells spells, map_eq_ok_iff] at accepted
  obtain ⟨last, made, same⟩ := accepted
  cases same
  rw [Given.chooseAll_append_cons] at made
  obtain ⟨given, _, made⟩ := bind_eq_ok_iff.mp made
  obtain ⟨next, chosen, made⟩ := bind_eq_ok_iff.mp made
  calc last.config
    _ = next.config := Given.config_of_chooseAll (List.forall_mem_append.mp noConfig).2 made
    _ = some file := Given.config_of_choose chosen

end Runs

/-- A file that gives a unit and an argument that gives it make the same run. Beside a unit in the arguments, a file
that loads makes no difference. A file that does not load makes the run fail, whatever the arguments say of a unit. -/
theorem run_unit_sources (host : Host) (file : String) {before after : List Choice}
    (noConfig : ∀ choice ∈ before ++ after, choice.setting? ≠ some .config) :
    (∀ (unit : UInt64) (fromFile fromFlag : List String),
      (∀ choice ∈ before ++ after, choice.setting? ≠ some .unit) →
      Spells fromFile (before ++ .set .config file :: after) →
      Spells fromFlag (before ++ .set .unit (String.ofList (Text.Numeral.write unit.toNat)) :: after) →
      host.files.readBytes (.ofString file) =
        .ok (Text.Utf8.encode ("unit = ".toList ++ Text.Numeral.write unit.toNat ++ ['\n'])) →
      run host fromFile = run host fromFlag) ∧
    (∀ (fromBoth fromFlag : List String) (config : Config),
      (∃ choice ∈ before ++ after, choice.setting? = some .unit) →
      Spells fromBoth (before ++ .set .config file :: after) → Spells fromFlag (before ++ after) →
      Config.load host.files (.ofString file) = .ok config → run host fromBoth = run host fromFlag) ∧
    ∀ (arguments : List String) (parsed : Arguments), Spells arguments (before ++ .set .config file :: after) →
      Request.ofArguments arguments = .ok (.list parsed) →
      (∀ config, Config.load host.files (.ofString file) ≠ .ok config) → (run host arguments).status = 1 := by
  refine ⟨?_, ?_, ?_⟩
  · intro unit fromFile fromFlag noUnit fileSpelled flagSpelled read
    have load := (Config.load_of_readBytes read).trans (Config.ofText_unitLine unit)
    exact run_eq_run_of_spells fileSpelled flagSpelled (alike_of_unitFile noConfig noUnit load)
  · intro fromBoth fromFlag config unitGiven bothSpelled flagSpelled load
    exact run_eq_run_of_spells bothSpelled flagSpelled (alike_of_unitGiven noConfig unitGiven load)
  · intro arguments parsed spells accepted unloaded
    have given := config_of_spells noConfig spells accepted
    have isRun : run host arguments = parsed.run host := by rw [run, accepted]
    rw [isRun]
    apply Arguments.status_run_of_not_configLoads
    intro loads
    obtain ⟨config, load⟩ := loads file given
    exact unloaded config load

def configuredHost : Host where
  files := {
    root :=
      (Host.ofTables.nameOf "unit.toml", Host.ofTables.fileOf "unit = 7\n") :: (Host.ofTables ["sda"] "" "").files.root
    workingDirectory := [] }
  freeSpace := fun _ => .error .noSuchEntry

theorem run_unit_sources_seven :
    run configuredHost ["--json", "--config", "unit.toml"] = run configuredHost ["--json", "--unit", "7"] ∧
      run configuredHost ["--config", "unit.toml", "--unit=+08"] = run configuredHost ["--unit=+08"] ∧
      (run configuredHost ["--config", "absent.toml", "--unit=+08"]).status = 1 := by
  have load : Config.load configuredHost.files (.ofString "unit.toml") = .ok { unit := 7 } := by decide +kernel
  have failed : Config.load configuredHost.files (.ofString "absent.toml") =
      .error (.unreadable (.ofString "absent.toml") (.system .noSuchEntry)) := by
    decide +kernel
  have accepted : Request.ofArguments ["--config", "absent.toml", "--unit=+08"] =
      .ok (.list { config := some "absent.toml", unit := some 8 }) := by
    decide +kernel
  have digits : String.ofList (Text.Numeral.write (7 : UInt64).toNat) = "7" := by decide +kernel
  have joined : Setting.unit.flag ++ "=" ++ "+08" = "--unit=+08" := by decide +kernel
  have given : Spells ["--unit=+08"] [.set .unit "+08"] := joined ▸ .joined .nil
  have named : Spells ["--config", "unit.toml"] [.set .config "unit.toml"] := @Spells.apart .config _ _ _ rfl .nil
  have both : Spells ["--config", "unit.toml", "--unit=+08"] [.set .config "unit.toml", .set .unit "+08"] :=
    @Spells.apart .config _ _ _ rfl given
  have absent : Spells ["--config", "absent.toml", "--unit=+08"] [.set .config "absent.toml", .set .unit "+08"] :=
    @Spells.apart .config _ _ _ rfl given
  have seven : Spells ["--unit", "7"] [.set .unit (String.ofList (Text.Numeral.write (7 : UInt64).toNat))] :=
    digits ▸ @Spells.apart .unit _ _ _ rfl .nil
  refine ⟨?_, ?_, ?_⟩
  · have sources := @run_unit_sources configuredHost "unit.toml" [.json] [] (by decide)
    exact sources.1 7 _ _ (by decide) (.json named) (.json seven) (by decide +kernel)
  · have sources := @run_unit_sources configuredHost "unit.toml" [] [.set .unit "+08"] (by decide)
    exact sources.2.1 _ _ _ ⟨_, List.mem_cons_self, rfl⟩ both given load
  · have sources := @run_unit_sources configuredHost "absent.toml" [] [.set .unit "+08"] (by decide)
    refine sources.2.2 _ _ absent accepted ?_
    intro config load
    rw [failed] at load
    cases load

end CommandLine

end BlockInventory
