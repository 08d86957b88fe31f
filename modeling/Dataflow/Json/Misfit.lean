import Dataflow.Json.Printer
import Dataflow.Text.Quoted
/-!
# Why a document does not fit

The reasons for which a well-formed document is refused, and how each is worded.
-/
set_option autoImplicit false

namespace Dataflow.Json

/-- What stands in a place where something else was expected. -/
inductive Found where
  | null
  | bool (b : Bool)
  | integer (n : Int)
  | float (x : Float)
  | string (s : String)
  | array
  | object
deriving Repr

/-- Why a document does not fit what is read from it. -/
inductive Misfit where
  /-- A part has the wrong type. -/
  | wrongType (found : Found) (expected : String)
  /-- A part that is no text and no number stands for an id. -/
  | badId (found : Value)
  | missingField (name : String)
  | duplicateField (name : String)
  /-- A record written as an array ends before its first required field, at this place. -/
  | tooShort (place : Nat) (expected : String)
  /-- A record written as an array has more items than the record has fields. -/
  | tooLong
  | numberOutOfRange
  /-- A low surrogate stands alone, or a high one is followed by an escape that is not a low one. -/
  | loneSurrogate
  /-- A high surrogate is not followed by an escape. -/
  | brokenSurrogate
  /-- Arrays and objects are nested too deeply. -/
  | tooDeep
deriving Repr

/-- How a part that was found is named. -/
def Found.message : Found → String
  | null => "null"
  | bool b => "boolean `" ++ (if b then "true" else "false") ++ "`"
  | integer n => "integer `" ++ (Number.integer n).text ++ "`"
  | float x => "floating point `" ++ (Number.float x).text ++ "`"
  | string s => "string " ++ Text.quoted s
  | array => "sequence"
  | object => "map"

/-- The wording of a reason. -/
def Misfit.message : Misfit → String
  | wrongType found expected => "invalid type: " ++ found.message ++ ", expected " ++ expected
  | badId found => "expected a string or numeric id, found " ++ found.compact
  | missingField name => "missing field `" ++ name ++ "`"
  | duplicateField name => "duplicate field `" ++ name ++ "`"
  | tooShort place expected =>
    "invalid length " ++ Digits.text place ++ ", expected " ++ expected
  | tooLong => "trailing characters"
  | numberOutOfRange => "number out of range"
  | loneSurrogate => "lone leading surrogate in hex escape"
  | brokenSurrogate => "unexpected end of hex escape"
  | tooDeep => "recursion limit exceeded"

end Dataflow.Json
