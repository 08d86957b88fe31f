/-!
# What can go wrong in a pass

Warnings name the connections that could not deliver a value; the pass goes on without it. Errors
stop a pass before it computes anything.
-/
set_option autoImplicit false

namespace Dataflow

/-- A connection that delivered no value in a pass. -/
inductive Warning where
  /-- The source of the connection does not exist. -/
  | missingSource (connection source target : String)
  /-- The target of the connection does not exist. -/
  | missingTarget (connection source target : String)
  /-- The source has no value on the named output. -/
  | missingSourceOutput (connection source pin : String)
  /-- The target has no input of the name. -/
  | undeclaredInput (connection target pin : String)
  /-- The value cannot be made to fit the input. -/
  | incompatibleValue (connection target pin : String)
deriving DecidableEq, Repr

namespace Warning

/-- The name of the fault. -/
def kind : Warning → String
  | missingSource .. => "MissingSource"
  | missingTarget .. => "MissingTarget"
  | missingSourceOutput .. => "MissingSourceOutput"
  | undeclaredInput .. => "UndeclaredInput"
  | incompatibleValue .. => "IncompatibleValue"

/-- The id of the faulty connection. -/
def connection : Warning → String
  | missingSource c _ _ => c
  | missingTarget c _ _ => c
  | missingSourceOutput c _ _ => c
  | undeclaredInput c _ _ => c
  | incompatibleValue c _ _ => c

/-- The wording of a warning. -/
def message : Warning → String
  | missingSource c source target =>
    "connection '" ++ c ++ "' into '" ++ target ++ "' references missing node '" ++ source ++ "'"
  | missingTarget c source target =>
    "connection '" ++ c ++ "' from '" ++ source ++ "' references missing node '" ++ target ++ "'"
  | missingSourceOutput c source pin =>
    "connection '" ++ c ++ "': node '" ++ source ++ "' has no value on output '" ++ pin ++ "'"
  | undeclaredInput c target pin =>
    "connection '" ++ c ++ "': node '" ++ target ++ "' has no input '" ++ pin ++ "'"
  | incompatibleValue c target pin =>
    "connection '" ++ c ++ "': value does not fit input '" ++ pin ++ "' of node '" ++ target ++ "'"

end Warning

/-- Why a pass cannot run. -/
inductive PassError where
  /-- There is no node of the id. -/
  | nodeNotFound (id : String)
  /-- These nodes lie on or behind a cycle, so none of them can come first. -/
  | cycle (ids : List String)
deriving DecidableEq, Repr

/-- The wording of an error. -/
def PassError.message : PassError → String
  | nodeNotFound id => "Evaluation target '" ++ id ++ "' not found in the program"
  | cycle ids => "Cycle detected between nodes: " ++ ", ".intercalate ids

end Dataflow
