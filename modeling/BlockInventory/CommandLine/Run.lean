import BlockInventory.CommandLine.Arguments
import BlockInventory.CommandLine.Listing
import BlockInventory.CommandLine.Report
import BlockInventory.Config.File
import BlockInventory.Device.Json
import BlockInventory.Inventory

/-!
# Runs of the command line

What the command writes and the status with which it ends: zero after a listing or the help text, one after a failure,
two when its arguments are refused. A failure writes nothing but its report.
-/

set_option autoImplicit false

namespace BlockInventory.CommandLine

structure Outcome where
  status : Nat
  output : String
  errors : String
  deriving DecidableEq, Repr

/-- Why a run that was asked for a listing has none. -/
inductive Failure where
  | config (path : Path) (error : ConfigError)
  | inventory (error : InventoryError)
  deriving DecidableEq, Repr

namespace Failure

def attempt : Failure → String
  | .config path _ => s!"loading {path.display}"
  | .inventory _ => "storage inventory failed"

/-- Why it failed, from the nearest cause to the farthest. -/
def causes : Failure → List String
  | .config _ error => [error.message, error.detail]
  | .inventory error => [error.message, error.cause.message]

end Failure

namespace Arguments

/-- The configuration of a run: that of the file, or the default without one, with the unit of the arguments in the
place of its own. -/
def configuration (files : FileTree) (arguments : Arguments) : Except Failure Config := do
  let config ← match arguments.config with
    | some text =>
      let path := Path.ofString text
      (Config.load files path).mapError (.config path)
    | none => .ok {}
  match arguments.unit with
  | some unit => .ok { config with unit }
  | none => .ok config

def devices (host : Host) (arguments : Arguments) : Except Failure (List Device) := do
  let config ← arguments.configuration host.files
  (host.inventory (.under (.ofString arguments.root)) config).mapError .inventory

/-- The devices in the form that the arguments ask for. -/
def render (arguments : Arguments) (devices : List Device) : List Char :=
  if arguments.json then (Device.listToJson devices).pretty 0 ++ ['\n'] else Listing.ofDevices devices

def run (host : Host) (arguments : Arguments) : Outcome :=
  match arguments.devices host with
  | .ok devices => { status := 0, output := String.ofList (arguments.render devices), errors := "" }
  | .error failure =>
    { status := 1, output := "",
      errors := String.ofList (Report.ofFailure failure.attempt failure.causes) }

end Arguments

def usage : String :=
  "Usage: block-inventory [--root <DIRECTORY>] [--config <FILE>] [--unit <UNIT>] [--json]\n"

def help : String :=
  "List the host's block devices and their mounted partitions\n\n" ++ usage ++
    "\n  --root <DIRECTORY>  read the host beneath this directory (default: /)\n" ++
    "  --config <FILE>     TOML file that may set `unit`\n" ++
    "  --unit <UNIT>       unit of sizes, in place of the file's\n" ++
    "  --json              write JSON\n" ++
    "  -h, --help          write this text\n"

def run (host : Host) (arguments : List String) : Outcome :=
  match Request.ofArguments arguments with
  | .ok (.list arguments) => arguments.run host
  | .ok .help => { status := 0, output := help, errors := "" }
  | .error error => { status := 2, output := "", errors := s!"error: {error.message}\n\n{usage}" }

end BlockInventory.CommandLine
