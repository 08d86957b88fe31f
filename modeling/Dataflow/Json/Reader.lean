import Dataflow.Json.Tree
import Dataflow.Json.Misfit
/-!
# Reading a JSON tree

Reading takes a tree apart from left to right and stops at the first part that does not fit.
Numbers have to be in range, surrogates paired, and a value that is kept as it is may nest arrays
and objects only to a fixed depth. What nobody reads is not checked.
-/
set_option autoImplicit false

namespace Dataflow.Json

abbrev Reading (α : Type) := Except Misfit α

/-! ## Strings and numbers -/

/-- The characters of a string literal: two surrogate escapes make one character. -/
def readChars : List Piece → Reading (List Char)
  | [] => .ok []
  | .char c :: rest => (readChars rest).map (c :: ·)
  | .unit n :: rest =>
    if 0xdc00 ≤ n ∧ n ≤ 0xdfff then .error .loneSurrogate
    else if n < 0xd800 ∨ 0xdbff < n then (readChars rest).map (Char.ofNat n :: ·)
    else
      match rest with
      | .unit m :: rest =>
        if m < 0xdc00 ∨ 0xdfff < m then .error .loneSurrogate
        else
          let code := 0x10000 + (n - 0xd800) * 0x400 + (m - 0xdc00)
          (readChars rest).map (Char.ofNat code :: ·)
      | _ => .error .brokenSurrogate

def readPieces (pieces : List Piece) : Reading String :=
  (readChars pieces).map String.ofList

/-- The number of a literal: whole when it is written so and fits 64 bits, unsigned or, with a
minus, signed. Minus zero is a double. -/
def readNumeral (n : Numeral) : Reading Number :=
  let size := n.decimal.significand
  if n.whole && !n.negative && size < Number.unsignedBound then .ok (.integer size)
  else if n.whole && n.negative && 0 < size && size ≤ Number.signedBound then
    .ok (.integer (-size))
  else
    let x := n.decimal.toSignedFloat n.negative
    if x.isInf then .error .numberOutOfRange else .ok (.float x)

namespace Tree

/-- What a tree is, in a complaint about it. Numbers and strings are read for it, so their own
faults come first; arrays and objects are not looked into. -/
def found : Tree → Reading Found
  | null => .ok .null
  | bool b => .ok (.bool b)
  | number n =>
    (readNumeral n).map fun
      | .integer n => .integer n
      | .float x => .float x
  | string s => (readPieces s).map .string
  | array _ => .ok .array
  | object _ => .ok .object

/-- The complaint that a tree is not what was expected. -/
def mismatch {α : Type} (expected : String) (t : Tree) : Reading α :=
  match t.found with
  | .ok f => .error (.wrongType f expected)
  | .error e => .error e

/-! ## Parts of a known type -/

def readText : Tree → Reading String
  | string s => readPieces s
  | t => t.mismatch "a string"

def readBool : Tree → Reading Bool
  | bool b => .ok b
  | t => t.mismatch "a boolean"

def readFloat : Tree → Reading Float
  | number n => (readNumeral n).map Number.toFloat
  | t => t.mismatch "f64"

/-- A part that may be `null`. -/
def readOption {α : Type} (read : Tree → Reading α) : Tree → Reading (Option α)
  | null => .ok none
  | t => (read t).map some

def readList {α : Type} (read : Tree → Reading α) : Tree → Reading (List α)
  | array items => items.mapM read
  | t => t.mismatch "a sequence"

/-! ## Values of any type -/

mutual

/-- A value kept as it is; `room` is the number of arrays and objects that may still be nested in
one another. -/
def readValue (room : Nat) : Tree → Reading Value
  | null => .ok .null
  | bool b => .ok (.bool b)
  | number n => (readNumeral n).map .number
  | string s => (readPieces s).map .string
  | array items =>
    match room with
    | 0 => .error .tooDeep
    | room + 1 => (readValues room items).map .array
  | object members =>
    match room with
    | 0 => .error .tooDeep
    | room + 1 => (readMembers room [] members).map .object

def readValues (room : Nat) : List Tree → Reading (List Value)
  | [] => .ok []
  | t :: rest =>
    match readValue room t with
    | .error e => .error e
    | .ok v => (readValues room rest).map (v :: ·)

/-- The members of an object after those already read. A key that occurs again keeps its first
place and takes the new value. -/
def readMembers (room : Nat) (done : List (String × Value)) :
    List (List Piece × Tree) → Reading (List (String × Value))
  | [] => .ok done
  | (key, t) :: rest =>
    match readPieces key with
    | .error e => .error e
    | .ok key =>
      match readValue room t with
      | .error e => .error e
      | .ok v => readMembers room (Value.insertMember done key v) rest

end

/-- The number of arrays and objects that may be nested in one another in a whole document. -/
def roomOfDocument : Nat := 127

/-- An id: a text as it is, a number by its spelling. -/
def readId (room : Nat) (t : Tree) : Reading String :=
  match t.readValue room with
  | .error e => .error e
  | .ok (.string s) => .ok s
  | .ok (.number n) => .ok n.text
  | .ok v => .error (.badId v)

def readOptionalId (room : Nat) : Tree → Reading (Option String)
  | null => .ok none
  | t => (t.readId room).map some

/-! ## Records -/

/-- The members of an object, each read under its key in the state that the earlier ones left. -/
def readFields {σ : Type} (field : σ → String → Tree → Reading σ) :
    σ → List (List Piece × Tree) → Reading σ
  | s, [] => .ok s
  | s, (key, t) :: rest =>
    match readPieces key with
    | .error e => .error e
    | .ok key =>
      match field s key t with
      | .error e => .error e
      | .ok s => readFields field s rest

/-- The items of an array read as the fields of the given names, as far as both go. -/
def readPlaces {σ : Type} (field : σ → String → Tree → Reading σ) :
    σ → List String → List Tree → Reading σ
  | s, name :: names, t :: rest =>
    match field s name t with
    | .error e => .error e
    | .ok s => readPlaces field s names rest
  | s, _, _ => .ok s

/-- A field that may be given once. -/
def once {α : Type} (name : String) (old : Option α) (read : Reading α) : Reading (Option α) :=
  if old.isSome then .error (.duplicateField name) else read.map some

end Tree

end Dataflow.Json
