import Dataflow.Number.Remainder
/-!
# Waveforms

The periodic signals of `Generator` and `Timer` nodes as functions of time. All times are in
milliseconds.
-/
set_option autoImplicit false

namespace Dataflow

inductive Waveform where
  | sine
  | square
  | triangle
deriving DecidableEq, Repr

namespace Waveform

def all : List Waveform :=
  [sine, square, triangle]

def name : Waveform → String
  | sine => "Sine"
  | square => "Square"
  | triangle => "Triangle"

def ofName? (name : String) : Option Waveform :=
  all.find? (·.name == name)

/-- The double nearest to the circle number. -/
def pi : Float := 3.141592653589793

/-- The signal at time `t`. A sine is rounded to hundredths; a square wave is high in the first
half of its period; a triangle has its peaks at the ends of the period. -/
def sample (shape : Waveform) (t period amplitude : Float) : Float :=
  match shape with
  | sine => ((t * pi / (period / 2.0)).sin * amplitude * 100.0).round / 100.0
  | square => if Number.remainder t period < period / 2.0 then amplitude else 0.0
  | triangle => (2.0 * amplitude / period) * (Number.remainder t period - period / 2.0).abs

/-- A pulse at time `t`: 1 for `on`, then 0 for `off`, and again. -/
def pulse (t on off : Float) : Float :=
  if Number.remainder t (on + off) < on then 1.0 else 0.0

end Waveform

end Dataflow
