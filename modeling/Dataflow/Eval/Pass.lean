import Dataflow.Eval.Behaviour
import Dataflow.Eval.Order
/-!
# Passes

A pass visits nodes in order. A visit gathers the inputs of a node from the outputs of the nodes
visited before it, one incoming connection after the other, and computes the node's outputs. A
connection that delivers nothing leaves a warning; when several connections feed one input, the
last that delivers a value decides.
-/
set_option autoImplicit false

namespace Dataflow

/-- What happened at one node in a pass. -/
structure Visit where
  id : String
  outputs : Slots
  /-- What the node holds into the next tick. -/
  held : Option Float
  /-- The faults of the connections into the node, then of those out of it. -/
  warnings : List Warning

/-- The outcome of a pass: its visits, the first first. -/
structure Evaluation where
  visits : List Visit

namespace Evaluation

def visit? (e : Evaluation) (id : String) : Option Visit :=
  e.visits.find? (·.id == id)

/-- The ids of the visited nodes, in the order of the visits. -/
def order (e : Evaluation) : List String :=
  e.visits.map (·.id)

def warnings (e : Evaluation) : List Warning :=
  e.visits.flatMap (·.warnings)

def isClean (e : Evaluation) : Bool :=
  e.warnings.isEmpty

def outputs? (e : Evaluation) (id : String) : Option Slots :=
  (e.visit? id).map (·.outputs)

/-- The number that a visited node shows. -/
def value? (e : Evaluation) (id : String) : Option Float :=
  (e.outputs? id).bind (·.number? "value")

def held? (e : Evaluation) (id : String) : Option Float :=
  (e.visit? id).bind (·.held)

end Evaluation

namespace Program

/-- What one connection into `target` does to its inputs: the input pin has to be declared, the
source has to exist and to have a value on the output, and the value has to fit. -/
def deliver (p : Program) (done : Evaluation) (target : String) (inputs : Slots)
    (c : Connection) : Except Warning Slots :=
  if !inputs.declares c.targetInput then
    .error (.undeclaredInput c.id target c.targetInput)
  else if !p.hasNode c.source then
    .error (.missingSource c.id c.source target)
  else
    match (done.outputs? c.source).bind (·.get? c.sourceOutput) with
    | none => .error (.missingSourceOutput c.id c.source c.sourceOutput)
    | some value =>
      match inputs.set? c.targetInput value with
      | some inputs => .ok inputs
      | none => .error (.incompatibleValue c.id target c.targetInput)

/-- The inputs after the given connections into `target`, and the faults among them. -/
def gather (p : Program) (done : Evaluation) (target : String) (inputs : Slots) :
    List Connection → Slots × List Warning
  | [] => (inputs, [])
  | c :: rest =>
    match p.deliver done target inputs c with
    | .ok inputs => p.gather done target inputs rest
    | .error w =>
      let (inputs, ws) := p.gather done target inputs rest
      (inputs, w :: ws)

/-- The inputs of a node, and the faults of the connections into it. -/
def inputsOf (p : Program) (done : Evaluation) (n : Node) : Slots × List Warning :=
  p.gather done n.id (.ofPins n.kind.inputs) (p.incoming n.id)

/-- The faults of the connections out of a node: those whose target does not exist. -/
def looseEnds (p : Program) (id : String) : List Warning :=
  ((p.outgoing id).filter fun c => !p.hasNode c.target).map fun c =>
    .missingTarget c.id id c.target

/-- The visit of a node after the visits of `done`. -/
def visit (p : Program) (ctx : Context) (done : Evaluation) (n : Node) : Visit :=
  let (inputs, faults) := p.inputsOf done n
  ⟨n.id, n.outputs inputs ctx, n.held? inputs, faults ++ p.looseEnds n.id⟩

def visitAll (p : Program) (ctx : Context) (nodes : List Node) : Evaluation :=
  nodes.foldl (fun done n => ⟨done.visits ++ [p.visit ctx done n]⟩) ⟨[]⟩

def pass (p : Program) (ctx : Context) (members : List String) : Except PassError Evaluation :=
  match p.order? members with
  | .error e => .error e
  | .ok order => .ok (p.visitAll ctx (order.filterMap p.node?))

/-- A pass over a node and all its suppliers. -/
def evaluate (p : Program) (ctx : Context) (target : String) : Except PassError Evaluation :=
  if p.hasNode target then p.pass ctx (p.suppliers target)
  else .error (.nodeNotFound target)

def evaluateAll (p : Program) (ctx : Context) : Except PassError Evaluation :=
  p.pass ctx (p.nodes.map (·.id))

end Program

end Dataflow
