/-!
# Outcomes of commands

What a command writes, as data: the commands are functions, and only the outermost layer prints.
-/
set_option autoImplicit false

namespace Dataflow.Command

/-- What a command has written and how it ended. -/
structure Outcome where
  exitCode : UInt32 := 0
  stdout : List String := []
  stderr : String := ""
  saved : Option String := none
deriving Repr

def Outcome.line (o : Outcome) (text : String) : Outcome :=
  { o with stdout := o.stdout ++ [text] }

/-- The outcome of a command that gives up. -/
def Outcome.fail (o : Outcome) (message : String) : Outcome :=
  { o with exitCode := 1, stderr := "\nError: " ++ message ++ "\n" }

def Outcome.output (o : Outcome) : String :=
  String.join (o.stdout.map (· ++ "\n"))

end Dataflow.Command
