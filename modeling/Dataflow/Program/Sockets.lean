import Dataflow.Program.Basic
/-!
# Sockets

The connections of a node grouped by the pin that they are plugged into. Pins come in the order
of their first connection, and the connections of a pin in table order.
-/
set_option autoImplicit false

namespace Dataflow

/-- The connections that are plugged into one pin of a node. -/
structure Socket where
  /-- The id of the node. -/
  node : String
  pin : String
  connections : List Connection
deriving DecidableEq, Repr

namespace Socket

/-- The sockets with one more connection: in the socket of its pin, or in a new one at the end. -/
def plug (node : String) (pin : Connection → String) : List Socket → Connection → List Socket
  | [], c => [⟨node, pin c, [c]⟩]
  | s :: rest, c =>
    if s.pin = pin c then { s with connections := s.connections ++ [c] } :: rest
    else s :: plug node pin rest c

/-- The connections of a node grouped by pin. -/
def group (node : String) (pin : Connection → String) (connections : List Connection) :
    List Socket :=
  connections.foldl (plug node pin) []

end Socket

namespace Program

/-- The sockets of the input pins of a node into which something is plugged. -/
def inputSockets (p : Program) (id : String) : List Socket :=
  Socket.group id (·.targetInput) (p.incoming id)

/-- The sockets of the output pins of a node out of which something leads. -/
def outputSockets (p : Program) (id : String) : List Socket :=
  Socket.group id (·.sourceOutput) (p.outgoing id)

/-- The input pins of a node that an existing node feeds, each with the node that feeds it: the
source of the last connection of the pin whose source exists. -/
def feeders (p : Program) (id : String) : List (String × Node) :=
  (p.inputSockets id).filterMap fun s =>
    (s.connections.reverse.findSome? fun c => p.node? c.source).map fun n => (s.pin, n)

end Program

end Dataflow
