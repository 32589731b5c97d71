import BlockInventory.CommandLine.Run
import BlockInventory.Snapshot

/-!
# The command

Reads the snapshot of a host from standard input and runs the command line on it.
-/

set_option autoImplicit false

namespace BlockInventory

/-- What remains to be read, after what was read before. -/
partial def readRest (input : IO.FS.Stream) (before : String) : IO String := do
  let line ← input.getLine
  if line.isEmpty then return before
  readRest input (before ++ line)

end BlockInventory

def main (arguments : List String) : IO UInt32 := do
  let text ← BlockInventory.readRest (← IO.getStdin) ""
  match BlockInventory.Snapshot.ofText? text with
  | none =>
    IO.eprintln "error: standard input holds no snapshot of a host"
    return 2
  | some host =>
    let outcome := BlockInventory.CommandLine.run host arguments
    IO.print outcome.output
    IO.eprint outcome.errors
    return UInt32.ofNat outcome.status
