import Std.Data.ExtTreeMap
/-!
# Contexts

What a pass sees of the outside world: the time, and the last reading of every channel.
-/
set_option autoImplicit false

namespace Dataflow

/-- The time and the readings that a pass sees. -/
structure Context where
  time : UInt64
  readings : Std.ExtTreeMap String Float compare := ∅

namespace Context

/-- The context with a reading on a channel, in place of the one before. -/
def withReading (c : Context) (channel : String) (x : Float) : Context :=
  { c with readings := c.readings.insert channel x }

def reading? (c : Context) (channel : String) : Option Float :=
  c.readings[channel]?

end Context

end Dataflow
