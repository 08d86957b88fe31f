import Dataflow.Command.Generate
import Dataflow.Command.Run
/-!
# Arguments

The command line of both commands. An option with a value is written `--name value` or
`--name=value`; what is not understood makes the whole line unusable.
-/
set_option autoImplicit false

namespace Dataflow.Command

/-- The arguments with `--name=value` taken apart. -/
def splitArguments (args : List String) : List String :=
  args.flatMap fun arg =>
    let chars := arg.toList
    if chars.take 2 = ['-', '-'] && chars.contains '=' then
      [String.ofList (chars.takeWhile (· != '=')),
        String.ofList ((chars.dropWhile (· != '=')).drop 1)]
    else [arg]

/-- The run command as its arguments describe it. -/
structure RunCommand where
  snapshotPath : Option String := none
  devicePath : Option String := none
  outputPath : Option String := none
  /-- Whether to wait between two ticks. -/
  realtime : Bool := false
  options : RunOptions := {}

/-- The command with an option that has no value. -/
def RunCommand.flag? (c : RunCommand) (name : String) : Option RunCommand :=
  match name with
  | "--realtime" => some { c with realtime := true }
  | "--describe" => some { c with options := { c.options with describe := true } }
  | "--formulas" => some { c with options := { c.options with formulas := true } }
  | _ => none

/-- The command with an option that has a value. -/
def RunCommand.option? (c : RunCommand) (name value : String) : Option RunCommand :=
  let o := c.options
  match name with
  | "-t" | "--ticks" =>
    (natOption? UInt64.size value).map fun n => { c with options := { o with ticks := n } }
  | "--interval-ms" =>
    (natOption? UInt64.size value).map fun n => { c with options := { o with interval := n.toUInt64 } }
  | "--retention" =>
    (natOption? UInt64.size value).map fun n => { c with options := { o with retention := some n } }
  | "--channel" => some { c with options := { o with channel := value } }
  | "--alias" =>
    (alias? value).map fun a => { c with options := { o with aliases := o.aliases ++ [a] } }
  | "-d" | "--device" => some { c with devicePath := some value }
  | "-o" | "--output" =>
    some { c with outputPath := some value, options := { o with save := true } }
  | _ => none

/-- The command after the remaining arguments. -/
def RunCommand.extend (c : RunCommand) : List String → Option RunCommand
  | [] => some c
  | arg :: rest =>
    match c.flag? arg, rest with
    | some c, rest => c.extend rest
    | none, rest =>
      if arg.toList.head? = some '-' then
        match rest with
        | [] => none
        | value :: rest => (c.option? arg value).bind fun c => c.extend rest
      else if c.snapshotPath.isNone then
        RunCommand.extend { c with snapshotPath := some arg } rest
      else none

/-- The run command of a list of arguments. -/
def RunCommand.ofArguments? (args : List String) : Option RunCommand :=
  RunCommand.extend {} (splitArguments args)

/-- The generate command as its arguments describe it, with the texts of its options. -/
structure GenerateCommand where
  outputPath : String := "device_stream.txt"
  count : Option String := none
  min : Option String := none
  max : Option String := none
  noise : Option String := none

/-- The command after the remaining arguments. -/
def GenerateCommand.extend (c : GenerateCommand) : List String → Option GenerateCommand
  | [] => some c
  | [_] => none
  | name :: value :: rest =>
    match name with
    | "-o" | "--output" => GenerateCommand.extend { c with outputPath := value } rest
    | "-c" | "--count" => GenerateCommand.extend { c with count := some value } rest
    | "--min" => GenerateCommand.extend { c with min := some value } rest
    | "--max" => GenerateCommand.extend { c with max := some value } rest
    | "--noise" => GenerateCommand.extend { c with noise := some value } rest
    | _ => none

/-- The generate command of a list of arguments: where its stream goes, and its options. -/
def GenerateCommand.ofArguments? (args : List String) : Option (String × GenerateOptions) :=
  (GenerateCommand.extend {} (splitArguments args)).bind fun c =>
    (GenerateOptions.ofTexts? c.count c.min c.max c.noise).map fun o => (c.outputPath, o)

end Dataflow.Command
