import BlockInventory.Proofs.CommandLine.Runs
import BlockInventory.Proofs.Device.RoundTrip

/-!
# The JSON that the command writes

A run that was asked for JSON and succeeds writes one JSON text and a line feed. The text is read as the inventory of
the host beneath the root of the arguments, with the unit that the arguments select.
-/

set_option autoImplicit false

namespace BlockInventory.CommandLine

theorem getLast?_pretty_listToJson (devices : List Device) (level : Nat) :
    ((Device.listToJson devices).pretty level).getLast? = some ']' := by
  cases devices with
  | nil => rfl
  | cons device devices =>
      rw [Device.listToJson, List.map_cons, Json.Value.pretty]
      exact List.getLast?_concat

/-- A successful run that was asked for JSON writes one text, which reads back as the inventory of what lies beneath the
root of the arguments, and a line feed. -/
theorem json_output_readsBack {host : Host} {arguments : List String} {parsed : Arguments}
    (accepted : Request.ofArguments arguments = .ok (.list parsed)) (asked : "--json" ∈ arguments)
    (success : (run host arguments).status = 0) :
    ∃ unit devices text, parsed.SelectsUnit host.files unit ∧
      host.inventory
        { registry := (Path.ofString parsed.root).join (.ofString "sys/block")
          mountTable := (Path.ofString parsed.root).join (.ofString "proc/mounts")
          partitionTable := (Path.ofString parsed.root).join (.ofString "proc/partitions")
          udevRecords := (Path.ofString parsed.root).join (.ofString "run/udev/data")
          legacyUdevRecords := (Path.ofString parsed.root).join (.ofString "dev/.udev/db") }
        { unit } = .ok devices ∧
      (run host arguments).output = String.ofList (text ++ ['\n']) ∧ text.getLast? = some ']' ∧
      (Json.Value.ofText? text).bind Device.listOfJson? = some devices := by
  have json : parsed.json = true := by
    rw [(readArguments_eq_ok_list_iff.mp accepted).json_iff]
    exact .inr asked
  have isRun : run host arguments = parsed.run host := by rw [run, accepted]
  rw [isRun] at success ⊢
  obtain ⟨devices, made⟩ := Arguments.status_run_eq_zero_iff.mp success
  obtain ⟨unit, selected, inventoried⟩ := Arguments.devices_eq_ok_iff.mp made
  have output := Arguments.output_run made
  rw [Arguments.render, if_pos json] at output
  refine ⟨unit, devices, _, selected, inventoried, output, getLast?_pretty_listToJson devices 0, ?_⟩
  rw [(Device.spellable_listToJson devices).ofText?_pretty]
  exact Device.listOfJson?_listToJson devices

/-- A host in a directory of another, whose disk and mount point hold a quote and a line feed. -/
def awkwardHost : Host :=
  (Host.ofTables ["sd\"a"] "/dev/sd\"a1 /mnt\\012x ext4\n" "8 1 5 sd\"a1\n").capturedIn "captured"

def awkwardDisk : Device where
  name := "sd\"a"
  partitions := some (.ofLast [("sd\"a1", { mountPoint := some "/mnt\nx", size := 5120 })])

theorem json_output_readsBack_awkward :
    awkwardHost.inventory .captured { unit := 1 } = .ok [awkwardDisk] ∧
      Request.ofArguments ["--root", "/captured", "--unit", "1", "--json"] =
        .ok (.list { root := "/captured", unit := some 1, json := true }) ∧
      (run awkwardHost ["--root", "/captured", "--unit", "1", "--json"]).status = 0 ∧
      ∃ text, (run awkwardHost ["--root", "/captured", "--unit", "1", "--json"]).output =
          String.ofList (text ++ ['\n']) ∧ text.getLast? = some ']' ∧
        (Json.Value.ofText? text).bind Device.listOfJson? = some [awkwardDisk] := by
  have known : awkwardHost.inventory .captured { unit := 1 } = .ok [awkwardDisk] := by decide +kernel
  have accepted : Request.ofArguments ["--root", "/captured", "--unit", "1", "--json"] =
      .ok (.list { root := "/captured", unit := some 1, json := true }) := by
    decide +kernel
  have success : (run awkwardHost ["--root", "/captured", "--unit", "1", "--json"]).status = 0 := by decide +kernel
  obtain ⟨unit, devices, text, selected, inventoried, written⟩ := json_output_readsBack accepted (by simp) success
  have one : unit = 1 := by
    cases selected with
    | given own _ =>
        cases own
        rfl
    | loaded own => cases own
    | standard own => cases own
  subst one
  obtain rfl := Except.ok.inj (known.symm.trans inventoried)
  exact ⟨known, accepted, success, text, written⟩

end BlockInventory.CommandLine
