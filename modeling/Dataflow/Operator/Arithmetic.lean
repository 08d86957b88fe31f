/-!
# Arithmetic operators

The four operators of a `Math` node.
-/
set_option autoImplicit false

namespace Dataflow

inductive Arithmetic where
  | add
  | subtract
  | multiply
  | divide
deriving DecidableEq, Repr

namespace Arithmetic

def all : List Arithmetic :=
  [add, subtract, multiply, divide]

def name : Arithmetic → String
  | add => "Add"
  | subtract => "Subtract"
  | multiply => "Multiply"
  | divide => "Divide"

def ofName? (name : String) : Option Arithmetic :=
  all.find? (·.name == name)

def symbol : Arithmetic → String
  | add => "+"
  | subtract => "-"
  | multiply => "×"
  | divide => "÷"

/-- The result, rounded once. -/
def apply : Arithmetic → Float → Float → Float
  | add, a, b => a + b
  | subtract, a, b => a - b
  | multiply, a, b => a * b
  | divide, a, b => a / b

end Arithmetic

end Dataflow
