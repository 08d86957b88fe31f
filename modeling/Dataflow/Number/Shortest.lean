import Dataflow.Number.Decimal
/-!
# The shortest decimal that reads back

Among the decimals that read back as a given double, the one with the fewest digits, and of two
with equally few the one nearer to the double.

The exact value of a finite double is itself a decimal. Cutting its last digits leaves two
neighbours on a coarser decimal grid, one below and one above; if any decimal of that grid reads
back, one of these two does. So the search cuts as many digits as possible, then one fewer, and
ends at the exact value.
-/
set_option autoImplicit false

namespace Dataflow

/-- Which of two neighbours is taken when the double lies exactly in the middle. -/
inductive Tie where
  /-- The one further from zero. -/
  | up
  /-- The one whose last digit is even. -/
  | even
deriving DecidableEq, Repr

namespace Decimal

/-- The decimal value of `mantissa * 2 ^ exponent`. -/
def ofBinary (mantissa : Nat) (exponent : Int) : Decimal :=
  if 0 ≤ exponent then ⟨mantissa <<< exponent.toNat, 0⟩
  else ⟨mantissa * Nat.pow 5 (-exponent).toNat, exponent⟩

/-- True when the decimal reads back as `x`. -/
def readsAs (x : Float) (d : Decimal) : Bool :=
  d.toFloat == x

/-- Of the two neighbours of `exact` with its last `cut` digits cut, the one to write for `x`: the
only one that reads back, or the nearer of the two. -/
def neighbour? (tie : Tie) (x : Float) (exact : Decimal) (cut : Nat) : Option Decimal :=
  let unit := Nat.pow 10 cut
  let low := exact.significand / unit
  let rest := exact.significand % unit
  let below : Decimal := ⟨low, exact.exponent + cut⟩
  let above : Decimal := ⟨low + 1, exact.exponent + cut⟩
  match below.readsAs x, above.readsAs x with
  | true, true =>
    match compare (2 * rest) unit, tie with
    | .lt, _ => some below
    | .gt, _ => some above
    | .eq, .up => some above
    | .eq, .even => some (if low % 2 = 0 then below else above)
  | true, false => some below
  | false, true => some above
  | false, false => none

/-- The first neighbour that reads back as `x` when at most `cut` digits of `exact` are cut, tried
from the most digits cut to none. -/
def shortestFrom (tie : Tie) (x : Float) (exact : Decimal) : Nat → Decimal
  | 0 => exact
  | cut + 1 =>
    match neighbour? tie x exact (cut + 1) with
    | some d => d
    | none => shortestFrom tie x exact cut

/-- The shortest decimal that reads back as the positive double `x`, whose value is
`mantissa * 2 ^ exponent`. -/
def shortest (tie : Tie) (x : Float) (mantissa : Nat) (exponent : Int) : Decimal :=
  let exact := ofBinary mantissa exponent
  shortestFrom tie x exact ((Digits.ofNat exact.significand).length - 1)

end Decimal

end Dataflow
