import Std.Data.ExtTreeMap
import Dataflow.Json.Value
import Dataflow.Number.Text
import Dataflow.Program.RecentValues
/-!
# Program definitions

A dataflow program as its author gives it: nodes with their configuration and history, the
connections between their pins, and the log of recent ticks. Nothing is checked yet; type names
are plain text.
-/
set_option autoImplicit false

namespace Dataflow

/-- What a node recorded at one tick. -/
structure TickEntry where
  nodeValue : Option String := none
  /-- Whether an editor shows the entry unfolded; kept as it is. -/
  isOpen : Option Bool := none
deriving DecidableEq, Repr

/-- The entries of a node by tick, in ascending order of the ticks' names. -/
abbrev TickEntries := Std.ExtTreeMap String TickEntry compare

/-- The configuration of a node and the history that goes with it. -/
structure NodeData where
  typeName : String := ""
  /-- The name that an editor gave the node. -/
  displayName : Option String := none
  /-- The configuration, in the order in which it was given. -/
  properties : List (String × Json.Value) := []
  tickEntries : TickEntries := ∅
  recentValues : RecentValues := .empty
  /-- The value that a gate holds from the last tick. -/
  heldValue : Option Float := none

structure NodeDefinition where
  id : String
  /-- The name that the node's type has for people. -/
  name : String
  x : Float := 0.0
  y : Float := 0.0
  data : NodeData

/-- A connection from an output pin of one node to an input pin of another. -/
structure Connection where
  id : String
  source : String
  sourceOutput : String
  target : String
  targetInput : String
deriving DecidableEq, Repr

structure Definition where
  id : Option String := none
  nodes : List NodeDefinition := []
  connections : List Connection := []
  recentTicks : List String := []

namespace NodeDefinition

/-- A node of a type with nothing else set; it is named for its type. -/
def ofType (id typeName : String) : NodeDefinition where
  id := id
  name := typeName
  data := { typeName := typeName }

def withDisplayName (n : NodeDefinition) (name : String) : NodeDefinition :=
  { n with data := { n.data with displayName := some name } }

def withProperty (n : NodeDefinition) (key : String) (value : Json.Value) : NodeDefinition :=
  { n with data := { n.data with properties := Json.Value.insertMember n.data.properties key value } }

/-- The name shown for the node: the one an editor gave it, or that of its type. -/
def displayName (n : NodeDefinition) : String :=
  n.data.displayName.getD n.name

def baseLabel (n : NodeDefinition) : String :=
  n.data.typeName ++ ":" ++ n.displayName

def property? (n : NodeDefinition) (key : String) : Option Json.Value :=
  Json.Value.member? n.data.properties key

/-- The property under a key as a number. Strings that spell a number count, truth values count 1
and 0. -/
def numberProperty? (n : NodeDefinition) (key : String) : Option Float :=
  match n.property? key with
  | some (.number x) => some x.toFloat
  | some (.string s) =>
    let x := Number.ofRecorded s
    if x.isNaN then none else some x
  | some (.bool b) => some (if b then 1.0 else 0.0)
  | _ => none

def textProperty? (n : NodeDefinition) (key : String) : Option String :=
  match n.property? key with
  | some (.string s) => some s
  | _ => none

def valueAt? (n : NodeDefinition) (tick : String) : Option String :=
  n.data.tickEntries[tick]?.bind (·.nodeValue)

def previousValue? (n : NodeDefinition) : Option Float :=
  n.data.recentValues.last?

end NodeDefinition

end Dataflow
