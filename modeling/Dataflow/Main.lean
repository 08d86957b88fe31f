import Dataflow.Command.Arguments
/-!
# The command line

`run SNAPSHOT` runs a program, `generate` writes a device stream. This is the only module that
reads or writes files; what is written is decided by the commands.
-/
set_option autoImplicit false

namespace Dataflow

open Command

def printOutcome (o : Outcome) : IO UInt32 := do
  IO.print o.output
  IO.eprint o.stderr
  return o.exitCode

def saveOutcome (o : Outcome) (path : Option String) : IO Unit :=
  match path, o.saved with
  | some path, some content => IO.FS.writeFile path content
  | _, _ => pure ()

def usage : IO UInt32 := do
  IO.eprintln "usage: run SNAPSHOT [--ticks N] [--interval-ms N] [--realtime] [--device FILE]
      [--channel NAME] [--retention N] [--alias NAME=TYPE] [--describe] [--formulas]
      [--output FILE]
    generate [--output FILE] [--count N] [--min N] [--max N] [--noise P]"
  return 2

def runCommand (c : RunCommand) (path : String) : IO UInt32 := do
  let snapshot ← IO.FS.readFile path
  let device ← match c.devicePath with
    | some path => do pure (some (← IO.FS.readBinFile path).toList)
    | none => pure none
  let options := { c.options with device := device }
  if c.realtime then
    IO.sleep (options.interval * (options.ticks - 1).toUInt64).toUInt32
  let outcome := options.run snapshot
  saveOutcome outcome c.outputPath
  printOutcome outcome

def generateCommand (path : String) (options : GenerateOptions) : IO UInt32 := do
  let outcome := options.run (mkStdGen (← IO.rand 0 (UInt32.size - 1)))
  saveOutcome outcome (some path)
  printOutcome outcome

/-- Runs an action and reports a failure of the system as an error of the program. -/
def reporting (action : IO UInt32) : IO UInt32 :=
  try action
  catch e => do
    IO.eprintln ("Error: " ++ toString e)
    return 1

end Dataflow

open Dataflow Command in
def main (args : List String) : IO UInt32 :=
  match args with
  | "run" :: rest =>
    match RunCommand.ofArguments? rest with
    | some c =>
      match c.snapshotPath with
      | some path => reporting (runCommand c path)
      | none => usage
    | none => usage
  | "generate" :: rest =>
    match GenerateCommand.ofArguments? rest with
    | some (path, options) => reporting (generateCommand path options)
    | none => usage
  | _ => usage
