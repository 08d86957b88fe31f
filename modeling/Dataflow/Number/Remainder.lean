import Dataflow.Number.Text
/-!
# The exact remainder of a division

`remainder a b` is `a - q * b` for the whole number `q` that is `a / b` without its fraction. It is
computed on whole mantissas and never rounded; its sign is that of `a`.
-/
set_option autoImplicit false

namespace Dataflow.Number

open Float.Model (UnpackedFloat)

/-- The remainder of `a` divided by `b`. Every finite number is its own remainder by an infinity;
division by zero and of an infinity leave no number. -/
def remainder (a b : Float) : Float :=
  match a.toModel.unpack, b.toModel.unpack with
  | .finite s m e _, .finite _ n k _ =>
    let low := min e k
    let rest := (m <<< (e - low).toNat) % (n <<< (k - low).toNat)
    Float.ofModel (.pack (.round .binary64 s rest low))
  | .finite .., .infinity _ => a
  | .zero _, .finite .. => a
  | .zero _, .infinity _ => a
  | _, _ => nan

end Dataflow.Number
