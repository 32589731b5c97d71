import BlockInventory.CommandLine.Run
import BlockInventory.Proofs.CommandLine.Arguments
import BlockInventory.Proofs.Inventory.Records

/-!
# How runs end

A run that was asked for a listing takes the configuration first and the inventory then. If both can be had it writes
the devices and ends with status zero; otherwise it ends with status one and writes nothing but what it attempted, the
configuration before the inventory.
-/

set_option autoImplicit false

namespace BlockInventory

namespace Report

/-- How a report of this attempt begins, up to its causes. -/
def opening (attempt : String) : List Char :=
  "Error: ".toList ++ (attempt.toList ++ "\n\nCaused by:".toList)

theorem opening_isPrefix_ofFailure (attempt cause : String) (causes : List String) :
    opening attempt <+: ofFailure attempt (cause :: causes) := by
  have parts : ofFailure attempt (cause :: causes) =
      "Error: ".toList ++ attempt.toList ++ ("\n\nCaused by:".toList ++ causeLines (cause :: causes)) ++ ['\n'] := by
    unfold ofFailure
    rfl
  refine ⟨causeLines (cause :: causes) ++ ['\n'], ?_⟩
  unfold opening
  simp only [parts, List.append_assoc]

/-- Two attempts with which one report begins begin alike. -/
theorem head?_eq_of_opening_isPrefix {first second : String} {report : List Char}
    (firstOpens : opening first <+: report) (secondOpens : opening second <+: report)
    (nonempty : first.toList ≠ []) (alsoNonempty : second.toList ≠ []) :
    first.toList.head? = second.toList.head? := by
  obtain ⟨firstEnd, rfl⟩ := firstOpens
  obtain ⟨secondEnd, same⟩ := secondOpens
  unfold opening at same
  simp only [List.append_assoc] at same
  have heads := congrArg List.head? (List.append_cancel_left same)
  rw [List.head?_append_of_ne_nil _ nonempty, List.head?_append_of_ne_nil _ alsoNonempty] at heads
  exact heads.symm

end Report

namespace CommandLine

namespace Arguments

/-- The configuration file can be loaded, if one is given. -/
def ConfigLoads (files : FileTree) (arguments : Arguments) : Prop :=
  ∀ file, arguments.config = some file → ∃ config, Config.load files (.ofString file) = .ok config

/-- The unit that the arguments select: their own, else that of the configuration file, else the default. A file that
is given has to load even where its unit does not count. -/
inductive SelectsUnit (files : FileTree) (arguments : Arguments) : UInt64 → Prop where
  | given {unit : UInt64} : arguments.unit = some unit →
      (∀ text, arguments.config = some text → ∃ config, Config.load files (.ofString text) = .ok config) →
      SelectsUnit files arguments unit
  | loaded {text : String} {config : Config} : arguments.unit = none → arguments.config = some text →
      Config.load files (.ofString text) = .ok config → SelectsUnit files arguments config.unit
  | standard : arguments.unit = none → arguments.config = none → SelectsUnit files arguments Size.defaultUnit

/-- The configuration before the arguments put their unit into it. -/
def loaded (files : FileTree) (arguments : Arguments) : Except Failure Config :=
  match arguments.config with
  | some file => (Config.load files (.ofString file)).mapError (.config (.ofString file))
  | none => .ok {}

/-- With the selected unit, the host has an inventory of what lies at these locations. -/
def Inventoried (host : Host) (locations : Locations) (arguments : Arguments) : Prop :=
  ∃ unit devices, arguments.SelectsUnit host.files unit ∧ host.inventory locations { unit } = .ok devices

/-- Why there is no listing: the file that was given is no configuration, or the host has no inventory. The inventory
is attempted only once its unit is known. -/
inductive Fails (host : Host) (arguments : Arguments) : Failure → Prop where
  | config {file : String} {error : ConfigError} : arguments.config = some file →
      Config.load host.files (.ofString file) = .error error → Fails host arguments (.config (.ofString file) error)
  | inventory {unit : UInt64} {error : InventoryError} : arguments.SelectsUnit host.files unit →
      host.inventory (.under (.ofString arguments.root)) { unit } = .error error →
      Fails host arguments (.inventory error)

variable {host : Host} {files : FileTree} {arguments : Arguments} {devices : List Device}

theorem configuration_eq_ok_iff {unit : UInt64} :
    arguments.configuration files = .ok { unit } ↔ arguments.SelectsUnit files unit := by
  constructor
  · intro success
    unfold configuration at success
    cases file : arguments.config with
    | none =>
        simp only [file] at success
        cases own : arguments.unit with
        | none =>
            rw [own] at success
            cases success
            exact .standard own file
        | some unit =>
            rw [own] at success
            cases success
            exact .given own (by simp [file])
    | some text =>
        simp only [file] at success
        obtain ⟨config, load, chosen⟩ := bind_eq_ok_iff.mp success
        rw [mapError_eq_ok_iff] at load
        cases own : arguments.unit with
        | none =>
            rw [own] at chosen
            cases chosen
            exact .loaded own file load
        | some unit =>
            rw [own] at chosen
            cases chosen
            exact .given own (by simp [file, load])
  · intro selected
    unfold configuration
    cases selected with
    | given own loads =>
        cases file : arguments.config with
        | none =>
            rw [own]
            rfl
        | some text =>
            obtain ⟨config, load⟩ := loads text file
            simp only [load, own]
            rfl
    | loaded own file load =>
        simp only [own, file, load]
        rfl
    | standard own file =>
        simp only [own, file]
        rfl

theorem devices_eq_ok_iff :
    arguments.devices host = .ok devices ↔
      ∃ unit, arguments.SelectsUnit host.files unit ∧
        host.inventory (.under (.ofString arguments.root)) { unit } = .ok devices := by
  simp only [Arguments.devices, bind_eq_ok_iff, mapError_eq_ok_iff]
  constructor
  · intro success
    obtain ⟨⟨unit⟩, configured, inventoried⟩ := success
    exact ⟨unit, configuration_eq_ok_iff.mp configured, inventoried⟩
  · intro success
    obtain ⟨unit, selected, inventoried⟩ := success
    exact ⟨{ unit }, configuration_eq_ok_iff.mpr selected, inventoried⟩

theorem status_run_eq_zero_iff :
    (arguments.run host).status = 0 ↔ ∃ devices, arguments.devices host = .ok devices := by
  unfold Arguments.run
  cases arguments.devices host with
  | error failure => simp
  | ok devices => simp

theorem output_run (success : arguments.devices host = .ok devices) :
    (arguments.run host).output = String.ofList (arguments.render devices) := by
  rw [Arguments.run, success]

theorem configuration_eq_map_loaded (files : FileTree) (arguments : Arguments) :
    arguments.configuration files =
      (arguments.loaded files).map fun config => { unit := arguments.unit.getD config.unit } := by
  unfold configuration loaded
  cases arguments.config with
  | none => cases arguments.unit <;> rfl
  | some file =>
      simp only
      cases Config.load files (.ofString file) with
      | error error => rfl
      | ok config => cases arguments.unit <;> rfl

section Loaded

variable {config : Config}

theorem loaded_of_load {file : String} (given : arguments.config = some file)
    (load : Config.load files (.ofString file) = .ok config) : arguments.loaded files = .ok config := by
  rw [loaded, given]
  exact mapError_eq_ok_iff.mpr load

theorem loaded_of_absent (absent : arguments.config = none) : arguments.loaded files = .ok {} := by
  rw [loaded, absent]

theorem configuration_of_loaded (made : arguments.loaded files = .ok config) :
    arguments.configuration files = .ok { unit := arguments.unit.getD config.unit } := by
  rw [configuration_eq_map_loaded, made]
  rfl

end Loaded

/-! ## Failures -/

theorem configLoads_of_absent (absent : arguments.config = none) : arguments.ConfigLoads files := by
  intro file given
  rw [absent] at given
  cases given

theorem SelectsUnit.configLoads {unit : UInt64} (selected : arguments.SelectsUnit files unit) :
    arguments.ConfigLoads files := by
  intro file given
  cases selected with
  | given _ loads => exact loads file given
  | loaded _ named load =>
      rw [named] at given
      cases given
      exact ⟨_, load⟩
  | standard _ absent => exact configLoads_of_absent absent file given

theorem loaded_eq_error_iff {failure : Failure} :
    arguments.loaded files = .error failure ↔
      ∃ file error, arguments.config = some file ∧ Config.load files (.ofString file) = .error error ∧
        .config (.ofString file) error = failure := by
  unfold loaded
  cases arguments.config with
  | none => simp
  | some file => simp [mapError_eq_error_iff]

theorem devices_eq_error_iff {failure : Failure} :
    arguments.devices host = .error failure ↔ arguments.Fails host failure := by
  simp only [Arguments.devices, bind_eq_error_iff, mapError_eq_error_iff]
  constructor
  · intro failed
    obtain unconfigured | ⟨⟨unit⟩, configured, error, failed, rfl⟩ := failed
    · rw [configuration_eq_map_loaded, map_eq_error_iff, loaded_eq_error_iff] at unconfigured
      obtain ⟨file, error, given, failed, rfl⟩ := unconfigured
      exact .config given failed
    · exact .inventory (configuration_eq_ok_iff.mp configured) failed
  · intro fails
    cases fails with
    | config given failed =>
        rw [configuration_eq_map_loaded, map_eq_error_iff, loaded_eq_error_iff]
        exact .inl ⟨_, _, given, failed, rfl⟩
    | inventory selected failed => exact .inr ⟨_, configuration_eq_ok_iff.mpr selected, _, failed, rfl⟩

theorem run_of_error {failure : Failure} (failed : arguments.devices host = .error failure) :
    arguments.run host =
      { status := 1, output := "", errors := String.ofList (Report.ofFailure failure.attempt failure.causes) } := by
  rw [Arguments.run, failed]

theorem render_ne_nil (arguments : Arguments) (devices : List Device) : arguments.render devices ≠ [] := by
  unfold render
  split
  · exact List.append_ne_nil_of_right_ne_nil _ (List.cons_ne_nil _ _)
  · simp [Listing.ofDevices, Listing.heading, Listing.line]

end Arguments

/-! ## Reports of failures -/

/-- The errors are a report of this attempt. -/
def Outcome.Reports (outcome : Outcome) (attempt : String) : Prop :=
  Report.opening attempt <+: outcome.errors.toList

section Reports

variable {host : Host} {arguments : Arguments} {failure : Failure}

theorem not_reports_of_ok {devices : List Device} (made : arguments.devices host = .ok devices) (attempt : String) :
    ¬(arguments.run host).Reports attempt := by
  intro reports
  rw [Outcome.Reports, Arguments.run, made] at reports
  have begins := List.prefix_nil.mp ((List.prefix_append _ _).trans reports)
  revert begins
  decide +kernel

theorem reports_of_error (failed : arguments.devices host = .error failure) :
    (arguments.run host).Reports failure.attempt := by
  have causes : ∃ cause causes, failure.causes = cause :: causes := by
    cases failure <;> exact ⟨_, _, rfl⟩
  obtain ⟨cause, causes, shape⟩ := causes
  have opens := Report.opening_isPrefix_ofFailure failure.attempt cause causes
  rw [← shape] at opens
  rw [Outcome.Reports, Arguments.run_of_error failed]
  exact String.toList_ofList.symm ▸ opens

theorem attempt_config (file : String) (error : ConfigError) :
    Failure.attempt (.config (.ofString file) error) = s!"loading {file}" := by
  rw [Failure.attempt, Path.display_ofString]

theorem Outcome.Reports.not_loading {outcome : Outcome} (reports : outcome.Reports "storage inventory failed")
    (file : String) : ¬outcome.Reports s!"loading {file}" := by
  intro loading
  have first : "storage inventory failed".toList.head? = some 's' := by decide +kernel
  have leading : "loading ".toList.head? = some 'l' := by decide +kernel
  have parts : (s!"loading {file}").toList = "loading ".toList ++ file.toList := String.toList_append
  have second : (s!"loading {file}").toList.head? = some 'l' := by
    rw [parts, List.head?_append, leading]
    rfl
  have alike := Report.head?_eq_of_opening_isPrefix reports loading
    (by intro empty; rw [empty] at first; cases first) (by intro empty; rw [empty] at second; cases second)
  rw [first, second] at alike
  cases alike

end Reports

namespace Arguments

variable {host : Host} {arguments : Arguments}

/-- The three ways in which a run that was asked for a listing ends. -/
inductive Ends (host : Host) (arguments : Arguments) : Outcome → Prop where
  | listed {outcome : Outcome} : arguments.ConfigLoads host.files →
      arguments.Inventoried host (.under (.ofString arguments.root)) → outcome.status = 0 → outcome.output ≠ "" →
      (∀ attempt, ¬outcome.Reports attempt) → Ends host arguments outcome
  | unconfigured {outcome : Outcome} {file : String} : ¬arguments.ConfigLoads host.files →
      arguments.config = some file → outcome.status = 1 → outcome.output = "" →
      outcome.Reports s!"loading {file}" → Ends host arguments outcome
  | notInventoried {outcome : Outcome} : arguments.ConfigLoads host.files →
      ¬arguments.Inventoried host (.under (.ofString arguments.root)) → outcome.status = 1 → outcome.output = "" →
      outcome.Reports "storage inventory failed" → Ends host arguments outcome

theorem ends_run (host : Host) (arguments : Arguments) : arguments.Ends host (arguments.run host) := by
  cases made : arguments.devices host with
  | ok devices =>
      obtain ⟨unit, selected, inventoried⟩ := devices_eq_ok_iff.mp made
      have output : (arguments.run host).output ≠ "" := by
        rw [output_run made]
        exact fun empty => render_ne_nil arguments devices (String.ofList_eq_empty_iff.mp empty)
      exact .listed selected.configLoads ⟨unit, devices, selected, inventoried⟩
        (status_run_eq_zero_iff.mpr ⟨devices, made⟩) output (not_reports_of_ok made)
  | error failure =>
      have reports := reports_of_error made
      have shape := run_of_error made
      cases devices_eq_error_iff.mp made with
      | config given failed =>
          rw [attempt_config] at reports
          refine .unconfigured ?_ given (by rw [shape]) (by rw [shape]) reports
          intro loads
          obtain ⟨config, load⟩ := loads _ given
          rw [failed] at load
          cases load
      | inventory selected failed =>
          refine .notInventoried selected.configLoads ?_ (by rw [shape]) (by rw [shape]) reports
          intro inventoried
          obtain ⟨_, _, inventoried⟩ := inventoried
          have success := devices_eq_ok_iff.mpr ⟨_, inventoried⟩
          rw [made] at success
          cases success

theorem status_run_of_not_configLoads (unloaded : ¬arguments.ConfigLoads host.files) :
    (arguments.run host).status = 1 := by
  cases arguments.ends_run host with
  | listed loads => exact absurd loads unloaded
  | unconfigured _ _ status => exact status
  | notInventoried loads => exact absurd loads unloaded

end Arguments

/-- A run that was asked for a listing ends with status zero if the configuration loads and what lies beneath the root of
the arguments has an inventory, and then it writes something. Otherwise it ends with status one, writes nothing, and
reports the configuration if that does not load, in whatever state the host is, and else the inventory. -/
theorem run_ends {host : Host} {arguments : List String} {parsed : Arguments} {locations : Locations}
    (accepted : Request.ofArguments arguments = .ok (.list parsed))
    (located : locations =
      { registry := (Path.ofString parsed.root).join (.ofString "sys/block")
        mountTable := (Path.ofString parsed.root).join (.ofString "proc/mounts")
        partitionTable := (Path.ofString parsed.root).join (.ofString "proc/partitions")
        udevRecords := (Path.ofString parsed.root).join (.ofString "run/udev/data")
        legacyUdevRecords := (Path.ofString parsed.root).join (.ofString "dev/.udev/db") }) :
    ((run host arguments).status = 0 ↔ parsed.ConfigLoads host.files ∧ parsed.Inventoried host locations) ∧
      ((run host arguments).status = 0 → (run host arguments).output ≠ "") ∧
      ((run host arguments).status ≠ 0 → (run host arguments).status = 1 ∧ (run host arguments).output = "") ∧
      ((∃ file, parsed.config = some file ∧ (run host arguments).Reports s!"loading {file}") ↔
        ¬parsed.ConfigLoads host.files) ∧
      ((run host arguments).Reports "storage inventory failed" ↔
        parsed.ConfigLoads host.files ∧ ¬parsed.Inventoried host locations) := by
  have beneath : locations = .under (.ofString parsed.root) := located
  have isRun : run host arguments = parsed.run host := by rw [run, accepted]
  rw [isRun, beneath]
  cases parsed.ends_run host with
  | listed loads inventoried status output silent => simp [loads, inventoried, status, output, silent]
  | unconfigured unloaded given status output reports =>
      refine ⟨by simp [status, unloaded], by simp [status], fun _ => ⟨status, output⟩, ?_, ?_⟩
      · exact ⟨fun _ => unloaded, fun _ => ⟨_, given, reports⟩⟩
      · exact ⟨fun other => absurd reports (other.not_loading _), fun both => absurd both.1 unloaded⟩
  | notInventoried loads missing status output reports =>
      refine ⟨by simp [status, missing], by simp [status], fun _ => ⟨status, output⟩, ?_, ?_⟩
      · constructor
        · intro loading
          obtain ⟨file, _, loading⟩ := loading
          exact absurd loading (reports.not_loading file)
        · intro unloaded
          exact absurd loads unloaded
      · exact ⟨fun _ => ⟨loads, missing⟩, fun _ => reports⟩

/-- A host that keeps another with one disk in a directory, and has no devices of its own. -/
def keepingHost : Host :=
  (Host.ofTables ["sda"] "" "").capturedIn "captured"

theorem inventoried_keepingHost :
    Arguments.Inventoried keepingHost .captured { root := "/captured" } :=
  ⟨Size.defaultUnit, [{ name := "sda" }], .standard rfl rfl, by decide +kernel⟩

theorem not_inventoried_keepingHost (arguments : Arguments) : ¬arguments.Inventoried keepingHost .live := by
  intro inventoried
  obtain ⟨unit, devices, _, success⟩ := inventoried
  obtain ⟨names, _, _, registered, _⟩ := Host.inventory_eq_ok_iff.mp success
  have unlisted : registeredNames keepingHost.files Locations.live.registry = .error (.system .noSuchEntry) := by
    decide +kernel
  rw [unlisted] at registered
  cases registered

theorem not_configLoads_keepingHost :
    ¬Arguments.ConfigLoads keepingHost.files { config := some "unit.toml", json := true } := by
  intro loads
  obtain ⟨config, load⟩ := loads "unit.toml" rfl
  have failed : Config.load keepingHost.files (.ofString "unit.toml") =
      .error (.unreadable (.ofString "unit.toml") (.system .noSuchEntry)) := by
    decide +kernel
  rw [failed] at load
  cases load

/-- The captured host is listed beneath its own root only. -/
theorem run_ends_captured :
    Request.ofArguments ["--root", "/captured"] = .ok (.list { root := "/captured" }) ∧
      Arguments.Inventoried keepingHost .captured { root := "/captured" } ∧
      (run keepingHost ["--root", "/captured"]).status = 0 ∧ (run keepingHost ["--root", "/captured"]).output ≠ "" ∧
      (run keepingHost []).status = 1 ∧ (run keepingHost []).output = "" ∧
      (run keepingHost []).Reports "storage inventory failed" ∧
      ¬Arguments.Inventoried keepingHost .live { config := some "unit.toml", json := true } ∧
      (run keepingHost ["--config", "unit.toml", "--json"]).status = 1 ∧
      (run keepingHost ["--config", "unit.toml", "--json"]).output = "" ∧
      (run keepingHost ["--config", "unit.toml", "--json"]).Reports "loading unit.toml" ∧
      ¬(run keepingHost ["--config", "unit.toml", "--json"]).Reports "storage inventory failed" := by
  have accepted : Request.ofArguments ["--root", "/captured"] = .ok (.list { root := "/captured" }) := by
    decide +kernel
  obtain ⟨captured, written, _⟩ := @run_ends keepingHost _ _ .captured accepted (by decide +kernel)
  obtain ⟨own, _, ownFails, _, ownReports⟩ :=
    @run_ends keepingHost [] {} .live (by decide +kernel) (by decide +kernel)
  obtain ⟨_, _, fails, config, inventory⟩ :=
    @run_ends keepingHost ["--config", "unit.toml", "--json"] { config := some "unit.toml", json := true } .live
      (by decide +kernel) (by decide +kernel)
  have listed : (run keepingHost ["--root", "/captured"]).status = 0 :=
    captured.mpr ⟨Arguments.configLoads_of_absent rfl, inventoried_keepingHost⟩
  have unlisted : (run keepingHost []).status ≠ 0 := by
    intro success
    exact not_inventoried_keepingHost _ (own.mp success).2
  have unconfigured : (run keepingHost ["--config", "unit.toml", "--json"]).status ≠ 0 := by decide +kernel
  obtain ⟨_, same, reports⟩ := config.mpr not_configLoads_keepingHost
  cases same
  refine ⟨accepted, inventoried_keepingHost, listed, written listed, (ownFails unlisted).1, (ownFails unlisted).2, ?_,
    not_inventoried_keepingHost _, (fails unconfigured).1, (fails unconfigured).2, reports, ?_⟩
  · exact ownReports.mpr ⟨Arguments.configLoads_of_absent rfl, not_inventoried_keepingHost _⟩
  · intro other
    exact not_configLoads_keepingHost (inventory.mp other).1

end CommandLine

end BlockInventory
