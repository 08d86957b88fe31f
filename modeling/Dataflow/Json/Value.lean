import Dataflow.Number.Decimal
/-!
# JSON values

The values that a document describes once its numbers and strings have been read. The members of
an object keep their order; in a value that was read every key occurs once.
-/
set_option autoImplicit false

namespace Dataflow.Json

/-- A number: a whole number of 64 bits, signed or unsigned, or a finite double. -/
inductive Number where
  | integer (n : Int)
  | float (x : Float)
deriving DecidableEq, Repr

inductive Value where
  | null
  | bool (b : Bool)
  | number (n : Number)
  | string (s : String)
  | array (items : List Value)
  | object (members : List (String × Value))
deriving Repr

namespace Number

/-- The first whole number that does not fit 64 bits with a sign. -/
def signedBound : Nat := 0x8000000000000000

/-- The first whole number that does not fit 64 bits without a sign. -/
def unsignedBound : Nat := UInt64.size

def toFloat : Number → Float
  | integer n => if n < 0 then -(Decimal.toFloat ⟨n.natAbs, 0⟩) else Decimal.toFloat ⟨n.natAbs, 0⟩
  | float x => x

end Number

namespace Value

/-- The members with `value` under `key`: in the place of the old value, or at the end. -/
def insertMember (members : List (String × Value)) (key : String) (value : Value) :
    List (String × Value) :=
  match members with
  | [] => [(key, value)]
  | (k, v) :: rest =>
    if k = key then (key, value) :: rest else (k, v) :: insertMember rest key value

def member? (members : List (String × Value)) (key : String) : Option Value :=
  (members.find? (·.1 == key)).map (·.2)

def isContainer : Value → Bool
  | array _ => true
  | object _ => true
  | _ => false

end Value

end Dataflow.Json
