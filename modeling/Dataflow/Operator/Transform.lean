import Dataflow.Operator.Logic
/-!
# Transform operators

The operators of a `Transform` node, which change a single number. `ramp` also looks at the value
that the node had before.
-/
set_option autoImplicit false

namespace Dataflow

inductive Transform where
  | absoluteValue
  | negation
  | not
  | round
  | floor
  | ceil
  | ramp
deriving DecidableEq, Repr

namespace Transform

def all : List Transform :=
  [absoluteValue, negation, not, round, floor, ceil, ramp]

def name : Transform → String
  | absoluteValue => "Absolute Value"
  | negation => "Negation"
  | not => "Not"
  | round => "Round"
  | floor => "Floor"
  | ceil => "Ceil"
  | ramp => "Ramp"

def ofName? (name : String) : Option Transform :=
  all.find? (·.name == name)

/-- The operator written around its operand, with the sign that leads to the result. -/
def sentence (op : Transform) (operand : String) : String :=
  match op with
  | absoluteValue => "|" ++ operand ++ "| ="
  | negation => "-(" ++ operand ++ ") ="
  | not => "!" ++ operand ++ " ⇒"
  | round => "round(" ++ operand ++ ") ="
  | floor => "floor(" ++ operand ++ ") ="
  | ceil => "ceil(" ++ operand ++ ") ="
  | ramp => operand ++ " →"

/-- The nearest whole number; a half goes up, also below zero. -/
def roundHalfUp (x : Float) : Float :=
  let low := x.floor
  if x - low ≥ 0.5 then low + 1.0 else low

/-- The step toward `x` from a finite value before it. A change is steep when it is larger than a
tenth of `before`; a steep rise adds a tenth of `x`, a steep fall takes a tenth of `before` away,
and any other change goes to `x` at once. The numbers are floats when a node steps, and can be read
exactly. -/
def rampFrom {α : Type} [Add α] [Sub α] [Mul α] [LT α] [DecidableLT α] [OfScientific α]
    (abs : α → α) (before x : α) : α :=
  let change := x - before
  if abs change > 0.1 * before then
    if change > 0.0 then before + x * 0.1
    else if change < 0.0 then before - before * 0.1
    else x
  else x

/-- The step toward `x`; without a finite value before it the step goes to `x`. -/
def rampStep (x : Float) (previous : Option Float) : Float :=
  match previous with
  | some before => if before.isFinite then rampFrom Float.abs before x else x
  | none => x

/-- The result for a number and the last value recorded before it. -/
def apply (op : Transform) (x : Float) (previous : Option Float) : Float :=
  match op with
  | absoluteValue => x.abs
  | negation => 0.0 - x
  | not => Number.ofBool (!truthy x)
  | round => roundHalfUp x
  | floor => x.floor
  | ceil => x.ceil
  | ramp => rampStep x previous

end Transform

end Dataflow
