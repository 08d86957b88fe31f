import Dataflow.Number.Text
/-!
# Logic operators

The comparisons and connectives of a `Logic` node. Their results are numbers: 1 for true and 0 for
false. As an operand every number is true but zero and what is not a number.
-/
set_option autoImplicit false

namespace Dataflow

/-- True of every number but zero and what is not a number. -/
def truthy (x : Float) : Bool :=
  x != 0.0 && !x.isNaN

/-- A comparison of two numbers or a connective of two truth values. -/
inductive Logic where
  | greaterThan
  | lessThan
  | greaterThanOrEqualTo
  | lessThanOrEqualTo
  | equal
  | notEqual
  | and
  | or
  | nand
  | xor
deriving DecidableEq, Repr

namespace Logic

def all : List Logic :=
  [greaterThan, lessThan, greaterThanOrEqualTo, lessThanOrEqualTo, equal, notEqual, and, or, nand,
    xor]

def name : Logic → String
  | greaterThan => "Greater Than"
  | lessThan => "Less Than"
  | greaterThanOrEqualTo => "Greater Than Or Equal To"
  | lessThanOrEqualTo => "Less Than Or Equal To"
  | equal => "Equal"
  | notEqual => "Not Equal"
  | and => "And"
  | or => "Or"
  | nand => "Nand"
  | xor => "Xor"

def ofName? (name : String) : Option Logic :=
  all.find? (·.name == name)

def symbol : Logic → String
  | greaterThan => ">"
  | lessThan => "<"
  | greaterThanOrEqualTo => ">="
  | lessThanOrEqualTo => "<="
  | equal => "=="
  | notEqual => "!="
  | and => "&&"
  | or => "||"
  | nand => "nand"
  | xor => "xor"

/-- Whether the operator holds of two numbers. -/
def holds : Logic → Float → Float → Bool
  | greaterThan, a, b => a > b
  | lessThan, a, b => a < b
  | greaterThanOrEqualTo, a, b => a ≥ b
  | lessThanOrEqualTo, a, b => a ≤ b
  | equal, a, b => a == b
  | notEqual, a, b => a != b
  | and, a, b => truthy a && truthy b
  | or, a, b => truthy a || truthy b
  | nand, a, b => !(truthy a && truthy b)
  | xor, a, b => truthy a != truthy b

def apply (op : Logic) (a b : Float) : Float :=
  Number.ofBool (op.holds a b)

end Logic

end Dataflow
