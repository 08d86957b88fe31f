import Dataflow.Number.Text
/-!
# Pin values

The types that a pin may carry, the values of these types, and when a value of one type stands
for a value of another.
-/
set_option autoImplicit false

namespace Dataflow

/-- The type of the values that a pin carries. -/
inductive PinType where
  | number
  | string
  | boolean
deriving DecidableEq, Repr

def PinType.name : PinType → String
  | number => "number"
  | string => "string"
  | boolean => "boolean"

def PinType.Carrier : PinType → Type
  | number => Float
  | string => String
  | boolean => Bool

/-- A named place of a node through which values of one type pass. -/
structure Pin where
  name : String
  type : PinType
deriving DecidableEq, Repr

inductive PinValue where
  | number (x : Float)
  | string (s : String)
  | boolean (b : Bool)
deriving DecidableEq, Repr

namespace PinValue

def type : PinValue → PinType
  | number _ => .number
  | string _ => .string
  | boolean _ => .boolean

/-- The value of a type that carries `a`. -/
def ofCarrier : (t : PinType) → t.Carrier → PinValue
  | .number, a => number a
  | .string, a => string a
  | .boolean, a => boolean a

/-- What the value carries when it is of type `t`. -/
def carried? (v : PinValue) (t : PinType) : Option t.Carrier :=
  match t, v with
  | .number, number x => some x
  | .string, string s => some s
  | .boolean, boolean b => some b
  | _, _ => none

/-- A value as text: numbers as they are recorded, strings as they are. -/
def text : PinValue → String
  | number x => Number.text x
  | string s => s
  | boolean b => if b then "true" else "false"

/-- A value as a number: truth values count 1 and 0, strings are read. -/
def toNumber : PinValue → Float
  | number x => x
  | string s => Number.ofText s
  | boolean b => Number.ofBool b

/-- The value as one of type `target`. Every value has a text; numbers and truth values stand for
each other, except that no truth value stands for what is not a number; no string stands for
either. -/
def coerce? (v : PinValue) (target : PinType) : Option PinValue :=
  match v, target with
  | number x, .number => some (number x)
  | number x, .string => some (string (Number.text x))
  | number x, .boolean => if x.isNaN then none else some (boolean (x != 0.0))
  | string s, .string => some (string s)
  | string _, _ => none
  | boolean b, .number => some (number (Number.ofBool b))
  | boolean b, .string => some (string (boolean b).text)
  | boolean b, .boolean => some (boolean b)

/-- A value that was made to fit a type is of that type. -/
theorem type_of_coerce? {v w : PinValue} {target : PinType} (h : v.coerce? target = some w) :
    w.type = target := by
  cases v <;> cases target <;> grind [coerce?, type]

/-- A value carries something of exactly its own type. -/
theorem isSome_carried? (v : PinValue) (t : PinType) : (v.carried? t).isSome ↔ v.type = t := by
  cases v <;> cases t <;> simp [carried?, type] <;> rfl

/-- A value fits its own type and stays as it is. -/
theorem coerce?_type (v : PinValue) : v.coerce? v.type = some v := by
  cases v <;> rfl

end PinValue

end Dataflow
