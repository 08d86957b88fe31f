import Dataflow.Text.Blank
import Dataflow.Number.Layout
/-!
# Numbers as text

The text under which a number is recorded and shown, and how text is read as a number.

* Writing gives `NaN`, `Infinity`, `-Infinity`, `0` for both zeros, and for every other double the
  shortest digits that read back.
* Reading ignores blanks at the ends and takes an optional sign before digits with an optional
  point and an optional power of ten, or before one of the words `inf`, `infinity` and `nan` in
  any letter case. All other text reads as not a number.

Recorded text is read with the two words for infinities taken first; the general rule reads them
alike (`ofRecorded_eq_ofText`).
-/
set_option autoImplicit false

namespace Dataflow.Number

open Float.Model (UnpackedFloat)

/-- The double that is not a number. -/
def nan : Float := 0.0 / 0.0

/-- Positive infinity. -/
def infinity : Float := 1.0 / 0.0

/-- The number that stands for a truth value: 1 for true and 0 for false. -/
def ofBool (b : Bool) : Float :=
  if b then 1.0 else 0.0

/-! ## Writing -/

/-- Recorded numbers are positional below ten to the 21st and down to a millionth; a whole number
has no fraction; of two equally near spellings the one further from zero is written. -/
def recorded : Layout := ⟨-6, 20, false, .up⟩

/-- The text under which a number is recorded. -/
def text (x : Float) : String :=
  match x.toModel.unpack with
  | .notANumber => "NaN"
  | .infinity .positive => "Infinity"
  | .infinity .negative => "-Infinity"
  | .zero _ => "0"
  | .finite s m e _ => String.ofList (recorded.finite (s == .negative) x.abs m e)

/-- Numbers in diagnostics of the command line are always positional. -/
def plain : Layout := ⟨-400, 400, false, .up⟩

/-- The text of a number in a diagnostic of the command line. -/
def plainText (x : Float) : String :=
  match x.toModel.unpack with
  | .notANumber => "NaN"
  | .infinity .positive => "inf"
  | .infinity .negative => "-inf"
  | .zero .positive => "0"
  | .zero .negative => "-0"
  | .finite s m e _ => String.ofList (plain.finite (s == .negative) x.abs m e)

/-! ## Reading -/

/-- The whole text as digits with an optional point among or around them, then an optional power
of ten. At least one digit stands before or after the point. -/
def unsigned? (s : List Char) : Option Decimal :=
  let (whole, rest) := Digits.span s
  let (fraction, rest) :=
    match rest with
    | '.' :: rest => Digits.span rest
    | rest => ([], rest)
  if whole.isEmpty && fraction.isEmpty then none
  else
    match Digits.power? rest with
    | some (power, []) => some (.ofParts whole fraction power)
    | _ => none

/-- The words for what is no finite number, in any letter case. -/
def word? (s : List Char) : Option Float :=
  let lower := s.map Char.toLower
  if lower = "inf".toList ∨ lower = "infinity".toList then some infinity
  else if lower = "nan".toList then some nan
  else none

/-- The number that the whole text spells, if it spells one. -/
def ofChars? (s : List Char) : Option Float :=
  let (negative, rest) := Digits.sign s
  match unsigned? rest with
  | some d => some (d.toSignedFloat negative)
  | none => (word? rest).map fun x => if negative then -x else x

/-- The number that a text spells between its blanks; not a number when it spells none. -/
def ofText (s : String) : Float :=
  (ofChars? (Text.trimBlanks s.toList)).getD nan

/-- The number that a recorded text stands for. The words that writing has for the infinities come
first, in their exact spelling; all else is read as any text is. -/
def ofRecorded (s : String) : Float :=
  let chars := Text.trimBlanks s.toList
  if chars = "Infinity".toList then infinity
  else if chars = "-Infinity".toList then -infinity
  else (ofChars? chars).getD nan

/-- The general rule knows the words for the infinities, so both readers give one number. -/
theorem ofRecorded_eq_ofText (s : String) : ofRecorded s = ofText s := by
  simp only [ofRecorded, ofText]
  split
  · next h =>
    rw [h]
    rfl
  · split
    · next h =>
      rw [h]
      rfl
    · rfl

end Dataflow.Number
