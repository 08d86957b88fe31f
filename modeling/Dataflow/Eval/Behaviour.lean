import Dataflow.Eval.Context
import Dataflow.Operator.Arithmetic
import Dataflow.Operator.Hold
import Dataflow.Operator.Transform
import Dataflow.Operator.Waveform
import Dataflow.Pin.Slots
import Dataflow.Program.Basic
/-!
# What a node computes

The outputs of a node as a function of its configuration, its history, its inputs and the context,
and the value that a gate holds into the next tick. A node that cannot compute a number shows what
is not a number.
-/
set_option autoImplicit false

namespace Dataflow.Node

def arithmetic? (n : Node) : Option Arithmetic :=
  (n.textProperty? "mathOperator").bind Arithmetic.ofName?

def logic? (n : Node) : Option Logic :=
  (n.textProperty? "logicOperator").bind Logic.ofName?

def transform? (n : Node) : Option Transform :=
  (n.textProperty? "transformOperator").bind Transform.ofName?

def hold? (n : Node) : Option Hold :=
  (n.textProperty? "controlOperator").bind Hold.ofName?

def waveform? (n : Node) : Option Waveform :=
  (n.textProperty? "generatorType").bind Waveform.ofName?

/-- The channel that a sensor listens on: the one it is set to, or the one named by its own id. -/
def channel (n : Node) : String :=
  (n.textProperty? "sensor").getD n.id

/-- A length of time that is set, in milliseconds or as it is; zero counts as not set. -/
def setting? (n : Node) (key : String) : Option Float :=
  match n.numberProperty? key with
  | some x => if x != 0.0 && !x.isNaN then some x else none
  | none => none

def operands? (inputs : Slots) : Option (Float × Float) :=
  match inputs.number? "num1", inputs.number? "num2" with
  | some a, some b => some (a, b)
  | _, _ => none

/-- The value of a generator. Periods are set in seconds. -/
def generatorValue (n : Node) (ctx : Context) : Float :=
  match n.waveform?, n.setting? "period", n.setting? "amplitude" with
  | some shape, some period, some amplitude =>
    shape.sample ctx.time.toFloat (period * 1000.0) amplitude
  | _, _, _ => Number.nan

/-- The value of a timer. Both times are set in seconds. -/
def timerValue (n : Node) (ctx : Context) : Float :=
  match n.setting? "timeOn", n.setting? "timeOff" with
  | some on, some off => Waveform.pulse ctx.time.toFloat (on * 1000.0) (off * 1000.0)
  | _, _ => Number.nan

def mathValue (n : Node) (inputs : Slots) : Float :=
  match operands? inputs, n.arithmetic? with
  | some (a, b), some op => op.apply a b
  | _, _ => Number.nan

def logicValue (n : Node) (inputs : Slots) : Float :=
  match operands? inputs, n.logic? with
  | some (a, b), some op => op.apply a b
  | _, _ => Number.nan

def transformValue (n : Node) (inputs : Slots) : Float :=
  match inputs.number? "num1", n.transform? with
  | some x, some op => op.apply x n.previousValue?
  | _, _ => Number.nan

/-- True when the gate of a control node is on: its first input is exactly 1. -/
def gateOn (inputs : Slots) : Bool :=
  match inputs.number? "num1" with
  | some x => x == 1.0
  | none => false

/-- The signal of a control node; without one it is 0. -/
def signal (inputs : Slots) : Float :=
  (inputs.number? "num2").getD 0.0

/-- The value of a control node and what it holds into the next tick. -/
def gateStep (n : Node) (inputs : Slots) : Float × Option Float :=
  match n.hold? with
  | some op => op.step (gateOn inputs) (signal inputs) n.data.heldValue n.previousValue?
  | none => (Number.nan, none)

/-- The value of a relay and whether it is active: it is when its input is a number other than 0. -/
def relayState (inputs : Slots) : Float × Bool :=
  match inputs.number? "num1" with
  | some x => if x.isNaN then (Number.nan, false) else (Number.ofBool (x != 0.0), x != 0.0)
  | none => (Number.nan, false)

def showing (x : Float) : Slots :=
  [⟨⟨"value", .number⟩, some (.number x)⟩]

def outputs (n : Node) (inputs : Slots) (ctx : Context) : Slots :=
  match n.kind with
  | .number => showing ((n.numberProperty? "value").getD 0.0)
  | .generator => showing (n.generatorValue ctx)
  | .timer => showing (n.timerValue ctx)
  | .sensor => showing ((ctx.reading? n.channel).getD Number.nan)
  | .math => showing (n.mathValue inputs)
  | .logic => showing (n.logicValue inputs)
  | .transform => showing (n.transformValue inputs)
  | .control => showing (n.gateStep inputs).1
  | .relay =>
    let (value, active) := relayState inputs
    showing value ++ [⟨⟨"active", .boolean⟩, some (.boolean active)⟩]

/-- What the node holds into the next tick. Only control nodes hold something. -/
def held? (n : Node) (inputs : Slots) : Option Float :=
  match n.kind with
  | .control => (n.gateStep inputs).2
  | _ => none

/-- The outputs of a node have the pins of its kind. -/
theorem pins_outputs (n : Node) (inputs : Slots) (ctx : Context) :
    (n.outputs inputs ctx).pins = n.kind.outputs := by
  cases h : n.kind <;> simp [outputs, h, showing, Slots.pins, Kind.outputs]

end Dataflow.Node
