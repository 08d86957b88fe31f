import Std.Data.ExtTreeMap
import Dataflow.Pin.Value
/-!
# Kinds of nodes

The closed set of node kinds with the pins of each, and the catalog that leads from the type
names of a document to kinds.
-/
set_option autoImplicit false

namespace Dataflow

/-- What a node computes. -/
inductive Kind where
  | number
  | generator
  | timer
  | sensor
  | math
  | logic
  | transform
  /-- A gate that can hold a value. -/
  | control
  /-- A switch that follows its input. -/
  | relay
deriving DecidableEq, Repr

namespace Kind

def all : List Kind :=
  [number, generator, timer, sensor, math, logic, transform, control, relay]

def name : Kind → String
  | number => "Number"
  | generator => "Generator"
  | timer => "Timer"
  | sensor => "Sensor"
  | math => "Math"
  | logic => "Logic"
  | transform => "Transform"
  | control => "Control"
  | relay => "Relay"

def ofName? (name : String) : Option Kind :=
  all.find? (·.name == name)

def inputs : Kind → List Pin
  | number | generator | timer | sensor => []
  | math | logic | control => [⟨"num1", .number⟩, ⟨"num2", .number⟩]
  | transform | relay => [⟨"num1", .number⟩]

/-- The output pins of the kind. Every kind has a number `value` as its first output. -/
def outputs : Kind → List Pin
  | relay => [⟨"value", .number⟩, ⟨"active", .boolean⟩]
  | _ => [⟨"value", .number⟩]

end Kind

/-- Which kind a type name stands for. -/
abbrev Catalog := Std.ExtTreeMap String Kind compare

namespace Catalog

def standard : Catalog :=
  Kind.all.foldl (fun catalog k => catalog.insert k.name k) ∅

def resolve? (catalog : Catalog) (typeName : String) : Option Kind :=
  catalog[typeName]?

/-- The catalog in which `name` stands for `kind`, whatever it stood for before. -/
def withAlias (catalog : Catalog) (name : String) (kind : Kind) : Catalog :=
  catalog.insert name kind

/-- The names that stand for a kind, in ascending order. -/
def names (catalog : Catalog) : List String :=
  catalog.keys

end Catalog

end Dataflow
