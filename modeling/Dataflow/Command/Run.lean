import Dataflow.Command.Outcome
import Dataflow.Device.Framer
import Dataflow.Diagram
import Dataflow.Snapshot.Reader
import Dataflow.Snapshot.Writer
/-!
# The run command

Loads a snapshot, runs it for a number of ticks and reports the values of its nodes. The whole run
is a function from the options and the content of the files to what is written.
-/
set_option autoImplicit false

namespace Dataflow.Command

structure RunOptions where
  ticks : Nat := 1
  /-- The simulated milliseconds between two ticks. -/
  interval : UInt64 := 1000
  retention : Option Nat := none
  /-- Further type names, each with the type name that it stands for. -/
  aliases : List (String × String) := []
  device : Option (List UInt8) := none
  channel : String := "device"
  describe : Bool := false
  formulas : Bool := false
  save : Bool := false
deriving Repr

/-- An alias option: a name, an equals sign and the type name it stands for, neither blank. -/
def alias? (option : String) : Option (String × String) :=
  let name := Text.trimBlanks (option.toList.takeWhile (· != '='))
  match option.toList.dropWhile (· != '=') with
  | [] => none
  | _ :: rest =>
    let builtin := Text.trimBlanks rest
    if name.isEmpty || builtin.isEmpty then none
    else some (String.ofList name, String.ofList builtin)

/-- The engine for the options; an alias for a type that does not exist is an error. -/
def RunOptions.engine (o : RunOptions) : Except String Engine :=
  let start : Engine :=
    match o.retention with
    | some ticks => ({} : Engine).withTickRetention ticks
    | none => {}
  o.aliases.foldlM (fun (e : Engine) (a : String × String) =>
    if (Kind.ofName? a.2).isNone then
      .error ("Unknown node type '" ++ a.2 ++ "' for alias '" ++ a.1 ++ "'")
    else .ok (e.withTypeAlias a.1 a.2)) start

/-- The text with blanks added up to a width, counted in characters. -/
def padded (width : Nat) (s : String) : String :=
  s ++ String.ofList (List.replicate (width - s.length) ' ')

/-- The state between two ticks of a run. -/
structure Run where
  program : Program
  /-- The number of warnings so far, counted anew at each tick. -/
  faults : Nat

/-- The numbers of the ticks of a run: they go on from the number of ticks in the log. -/
def RunOptions.numbers (o : RunOptions) (p : Program) : List Nat :=
  (List.range o.ticks).map fun n => p.recentTicks.length + n + 1

def tickId (number : Nat) : String :=
  "tick-" ++ Digits.text number

/-- The context of a tick. Time is the number of the tick times the interval, in 64 bits. -/
def RunOptions.context (o : RunOptions) (number : Nat) : Context :=
  let ctx : Context := { time := number.toUInt64 * o.interval }
  match o.device.bind fun bytes => (({} : Framer).push bytes).1.reading? with
  | some x => ctx.withReading o.channel x
  | none => ctx

def RunOptions.tick (o : RunOptions) (e : Engine) (r : Run) (number : Nat) : Except String Run :=
  match e.tick r.program (tickId number) (o.context number) with
  | .error err => .error ("Tick " ++ Digits.text number ++ " failed: " ++ err.message)
  | .ok (outcome, p) => .ok ⟨p, r.faults + outcome.warnings.length⟩

def RunOptions.runTicks (o : RunOptions) (e : Engine) (p : Program) : Except String Run :=
  (o.numbers p).foldlM (o.tick e) ⟨p, 0⟩

def valueLines (p : Program) : List String :=
  p.nodes.map fun n => padded 32 n.baseLabel ++ " " ++ (p.currentValue? n.id).getD "-"

def formulaLines (p : Program) : List String :=
  p.nodes.flatMap fun n =>
    match p.formulaOf n with
    | some f => [f.symbolic, "  " ++ f.withValues]
    | none => []

def RunOptions.report (o : RunOptions) (r : Run) : List String :=
  ["", "--- Node Values ---"] ++ valueLines r.program
    ++ (if o.formulas then ["", "--- Formulas ---"] ++ formulaLines r.program else [])
    ++ (if o.describe then ["", r.program.diagram.text] else [])
    ++ (if o.save then ["", "Saved snapshot"] else [])
    ++ ["", "--- Summary ---", "Ticks Run:            " ++ Digits.text o.ticks,
      "Connection Warnings:  " ++ Digits.text r.faults]

/-- The outcome of a run on the text of a snapshot. -/
def RunOptions.run (o : RunOptions) (snapshot : String) : Outcome :=
  match o.engine with
  | .error message => ({} : Outcome).fail message
  | .ok engine =>
    match Snapshot.ofText snapshot with
    | .error e => ({} : Outcome).fail ("Failed to read snapshot: " ++ e.message)
    | .ok s =>
      match engine.loadSnapshot s with
      | .error e => ({} : Outcome).fail ("Failed to load program: " ++ e.message)
      | .ok p =>
        let out := ({} : Outcome).line ("Loaded " ++ Digits.text p.nodes.length ++ " nodes and "
          ++ Digits.text p.connections.length ++ " connections")
        let out :=
          if o.device.isSome then out.line ("Reading device into channel '" ++ o.channel ++ "'")
          else out
        match o.runTicks engine p with
        | .error message => out.fail message
        | .ok r =>
          { out with
            stdout := out.stdout ++ o.report r
            saved := if o.save then some (Snapshot.ofProgram r.program).text else none }

end Dataflow.Command
