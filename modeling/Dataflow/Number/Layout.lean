import Dataflow.Number.Shortest
/-!
# Laying out a decimal

How the digits of a number are put on the page. Writers of numbers differ in few decisions, and
a `Layout` is one choice of them: which sizes are written positionally, whether a whole number
gets a fraction, and which of two equally short spellings is taken.
-/
set_option autoImplicit false

namespace Dataflow

/-- The decisions of one number format. -/
structure Layout where
  /-- The smallest power of ten of a leading digit that is written positionally. -/
  least : Int
  /-- The largest power of ten of a leading digit that is written positionally. -/
  most : Int
  /-- Whether a whole number in positional form ends in `.0`. -/
  wholeFraction : Bool
  /-- Which of two equally short and equally near decimals is written. -/
  tie : Tie
deriving DecidableEq, Repr

namespace Layout

/-- The digits without the zeros at their end. -/
def significant (digits : List Char) : List Char :=
  (digits.reverse.dropWhile (· == '0')).reverse

/-- The digits in positional form when the first of them has the power of ten `lead`. -/
def positional (l : Layout) (digits : List Char) (lead : Int) : List Char :=
  if lead < 0 then
    '0' :: '.' :: List.replicate (-lead - 1).toNat '0' ++ digits
  else
    let whole := lead.toNat + 1
    if digits.length ≤ whole then
      digits ++ List.replicate (whole - digits.length) '0'
        ++ (if l.wholeFraction then ['.', '0'] else [])
    else digits.take whole ++ '.' :: digits.drop whole

/-- The digits with an explicit power of ten, always signed: `1e+21`, `2.5e-7`. -/
def scientific (digits : List Char) (lead : Int) : List Char :=
  digits.take 1 ++ (if digits.length ≤ 1 then [] else '.' :: digits.drop 1)
    ++ 'e' :: (if lead < 0 then '-' else '+') :: Digits.ofNat lead.natAbs

/-- The text of a positive decimal. -/
def digits (l : Layout) (d : Decimal) : List Char :=
  let all := Digits.ofNat d.significand
  let lead : Int := d.exponent + (all.length - 1 : Nat)
  if l.least ≤ lead ∧ lead ≤ l.most then l.positional (significant all) lead
  else scientific (significant all) lead

/-- The text of the finite non-zero double with the given sign and magnitude: the digits of the
shortest decimal that reads back. -/
def finite (l : Layout) (negative : Bool) (x : Float) (mantissa : Nat) (exponent : Int) :
    List Char :=
  (if negative then ['-'] else []) ++ l.digits (Decimal.shortest l.tie x mantissa exponent)

end Layout

end Dataflow
