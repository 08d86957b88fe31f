import Dataflow.Number.Text
/-!
# Framing a device's bytes

A device sends readings as runs of ASCII digits, each ended by carriage return and line feed. A
framer is fed the bytes in chunks of any size and keeps the last complete reading. A reading takes
everything before it along; bytes that belong to no reading yet stay until a later one completes.
-/
set_option autoImplicit false

namespace Dataflow

/-- The last reading and the bytes after it. -/
structure Framer where
  pending : List UInt8 := []
  value : Option String := none
deriving DecidableEq, Repr

namespace Framer

def isDigit (b : UInt8) : Bool :=
  48 ≤ b && b ≤ 57

/-- The digits of the first reading and the bytes after it, where `run` holds the digits that stand
directly before the bytes, the last first. A line end without a digit before it ends no reading. -/
def takeReading : List UInt8 → List UInt8 → Option (List UInt8 × List UInt8)
  | _, [] => none
  | run, 13 :: 10 :: rest =>
    if run.isEmpty then takeReading [] rest else some (run.reverse, rest)
  | run, b :: rest => takeReading (if isDigit b then b :: run else []) rest

/-- The last of the readings in the bytes and what follows it, where `last` is the reading before
them. At most `fuel` readings are taken. -/
def takeAll : Nat → Option (List UInt8) → List UInt8 → Option (List UInt8) × List UInt8
  | 0, last, bytes => (last, bytes)
  | fuel + 1, last, bytes =>
    match takeReading [] bytes with
    | none => (last, bytes)
    | some (digits, rest) => takeAll fuel (some digits) rest

def digitText (digits : List UInt8) : String :=
  String.ofList (digits.map fun b => Char.ofNat b.toNat)

/-- The framer after one more chunk, and whether the chunk completed a reading. Every reading takes
at least one byte. -/
def push (f : Framer) (chunk : List UInt8) : Framer × Bool :=
  let bytes := f.pending ++ chunk
  match takeAll bytes.length none bytes with
  | (none, _) => ({ f with pending := bytes }, false)
  | (some digits, rest) => (⟨rest, some (digitText digits)⟩, true)

def reading? (f : Framer) : Option Float :=
  f.value.bind fun s => Number.ofChars? s.toList

end Framer

end Dataflow
