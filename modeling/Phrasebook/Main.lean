import Phrasebook.CommandLine.Disk
import Phrasebook.CommandLine.Usage

/-! # The program

Reads the words it was called with, runs the command they ask for on what it can see of the disk, writes the
changes, and prints what the command has to say.
-/

namespace Phrasebook.CommandLine

/-- Whether a variable of the environment is set, and to anything but zero. -/
def switchedOn? (name : String) : IO (Option Bool) := do
  return (← IO.getEnv name).map fun value => value != "0"

/-- Whether styles are shown: if the environment says so, or on a terminal where it does not forbid them. -/
def showsStyles : IO Bool := do
  if (← switchedOn? "CLICOLOR_FORCE") = some true then return true
  if (← switchedOn? "NO_COLOR").isSome then return false
  return (← switchedOn? "CLICOLOR").getD true && (← (← IO.getStdout).isTty)

def perform (command : Command) : IO UInt32 := do
  let tree ← Disk.view command
  let (after, result) := run (← showsStyles) tree command
  Disk.writeChanges tree after
  match result with
  | .ok outcome =>
    IO.print outcome.stdout
    IO.eprint outcome.stderr
    return outcome.status.code.toUInt32
  | .error failure =>
    IO.eprintln ("Error: " ++ failure.message)
    return failureCode.toUInt32

end Phrasebook.CommandLine

open Phrasebook.CommandLine in
def main (words : List String) : IO UInt32 := do
  match Command.read (← IO.getEnv "GLIDER_LOCALE") words with
  | .ok (some command) =>
    try perform command
    catch error =>
      IO.eprintln ("Error: " ++ toString error)
      return failureCode.toUInt32
  | .ok none =>
    IO.print usageText
    return 0
  | .error .help =>
    IO.print usageText
    return 0
  | .error .version =>
    IO.print versionText
    return 0
  | .error .fault =>
    IO.eprint faultText
    return failureCode.toUInt32
