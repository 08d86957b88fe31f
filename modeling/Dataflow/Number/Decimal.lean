/-!
# Decimal numbers and their digits

A decimal number is a significand times a power of ten. Runs of decimal digits are read and
written here; everything that reads or writes numbers is built on them.
-/
set_option autoImplicit false

namespace Dataflow

/-- The number `significand * 10 ^ exponent`. -/
structure Decimal where
  significand : Nat
  exponent : Int
deriving DecidableEq, Repr

namespace Decimal

/-- The double nearest to the number, infinity when it is beyond the largest double. -/
def toFloat (d : Decimal) : Float :=
  Float.ofScientific d.significand (d.exponent < 0) d.exponent.natAbs

/-- The double nearest to the number or to its opposite; the opposite of zero is minus zero. -/
def toSignedFloat (negative : Bool) (d : Decimal) : Float :=
  if negative then -d.toFloat else d.toFloat

end Decimal

namespace Digits

/-- The value of a run of decimal digits, the first the most significant; 0 for the empty run. -/
def value (digits : List Char) : Nat :=
  digits.foldl (fun n c => 10 * n + (c.toNat - '0'.toNat)) 0

/-- The longest run of decimal digits at the front, and what follows it. -/
def span (s : List Char) : List Char × List Char :=
  (s.takeWhile Char.isDigit, s.dropWhile Char.isDigit)

/-- Nothing is lost between the run and what follows it. -/
theorem span_append (s : List Char) : (span s).1 ++ (span s).2 = s :=
  List.takeWhile_append_dropWhile

theorem isDigit_of_mem_span {s : List Char} {c : Char} (h : c ∈ (span s).1) : c.isDigit = true :=
  List.all_eq_true.1 List.all_takeWhile c h

/-- What follows the run does not start with a digit. -/
theorem isDigit_eq_false_of_head?_span {s : List Char} {c : Char} (h : (span s).2.head? = some c) :
    c.isDigit = false := by
  have := List.head?_dropWhile_not Char.isDigit s
  simp only [span] at h
  simpa [h] using this

/-- The decimal digits of a number, without leading zeros. -/
def ofNat (n : Nat) : List Char :=
  Nat.toDigits 10 n

def text (n : Nat) : String :=
  String.ofList (ofNat n)

/-- An optional sign of either kind: whether it is a minus, and what follows it. -/
def sign : List Char → Bool × List Char
  | '-' :: rest => (true, rest)
  | '+' :: rest => (false, rest)
  | rest => (false, rest)

/-- True of a text that starts with the letter `e` of a power of ten. -/
def hasPower : List Char → Bool
  | c :: _ => c == 'e' || c == 'E'
  | [] => false

/-- The power of ten at the front: the letter `e`, an optional sign and at least one digit. A text
that does not start with the letter has power 0; the letter without a digit is an error. -/
def power? (s : List Char) : Option (Int × List Char) :=
  if hasPower s then
    let (negative, rest) := sign s.tail
    match span rest with
    | ([], _) => none
    | (digits, rest) => some (if negative then -value digits else value digits, rest)
  else some (0, s)

end Digits

/-- The decimal with the given whole digits, fraction digits and power of ten. -/
def Decimal.ofParts (whole fraction : List Char) (power : Int) : Decimal :=
  ⟨Digits.value (whole ++ fraction), power - fraction.length⟩

end Dataflow
