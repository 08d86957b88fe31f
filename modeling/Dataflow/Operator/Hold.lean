/-!
# Hold operators

The operators of a `Control` node, a gate that passes a signal on while it is off and decides by
its operator what to show while it is on. What the gate holds is carried from tick to tick.
-/
set_option autoImplicit false

namespace Dataflow

/-- What a gate shows while it is on. -/
inductive Hold where
  /-- The signal at the tick where the gate went on. -/
  | current
  /-- The value of the node at the tick before the gate went on. -/
  | prior
  | zero
deriving DecidableEq, Repr

namespace Hold

def all : List Hold :=
  [current, prior, zero]

def name : Hold → String
  | current => "Hold Current"
  | prior => "Hold Prior"
  | zero => "Output Zero"

/-- The operator of a name; `zero` has a second, older name. -/
def ofName? (name : String) : Option Hold :=
  if name = "Hold 0" then some zero else all.find? (·.name == name)

/-- One tick of the gate: the value shown, and what is held into the next tick. A gate that is off
shows the signal and holds nothing. A signal that is not a number releases what was held. -/
def step (op : Hold) (on : Bool) (signal : Float) (held previous : Option Float) :
    Float × Option Float :=
  let held := if signal.isNaN then none else held
  if on then
    match op with
    | zero => (0.0, none)
    | current =>
      let latched := held.getD signal
      (latched, some latched)
    | prior =>
      let latched := held.or previous
      (latched.getD 0.0, latched)
  else (signal, none)

end Hold

end Dataflow
