import Dataflow.Engine
/-!
# Snapshots

A program as a document keeps it: nodes and connections are filed under keys, ids may be left out
when they equal the key. A snapshot becomes a definition when its nodes are consistent, and every
program has a snapshot.
-/
set_option autoImplicit false

namespace Dataflow

structure NodeEntry where
  id : Option String := none
  name : String := ""
  x : Float := 0.0
  y : Float := 0.0
  data : NodeData := {}

structure ConnectionEntry where
  id : Option String := none
  source : String
  sourceOutput : String
  target : String
  targetInput : String
deriving DecidableEq, Repr

/-- A program as it is filed: entries keep their order, and keys may repeat. -/
structure Snapshot where
  id : Option String := none
  nodes : List (String × NodeEntry) := []
  connections : List (String × ConnectionEntry) := []
  recentTicks : List String := []

namespace NodeEntry

/-- The node that is filed under `key`. It has to be called so, and it needs a type. -/
def define (key : String) (n : NodeEntry) : Except LoadError NodeDefinition :=
  let id := n.id.getD key
  if id ≠ key then .error (.idMismatch key id)
  else if n.data.typeName = "" then .error (.noType id)
  else .ok ⟨id, n.name, n.x, n.y, n.data⟩

end NodeEntry

namespace ConnectionEntry

/-- The connection that is filed under `key`; its own id wins. -/
def define (key : String) (c : ConnectionEntry) : Connection :=
  ⟨c.id.getD key, c.source, c.sourceOutput, c.target, c.targetInput⟩

end ConnectionEntry

namespace Snapshot

def define (s : Snapshot) : Except LoadError Definition :=
  match s.nodes.mapM fun e => e.2.define e.1 with
  | .error err => .error err
  | .ok nodes => .ok ⟨s.id, nodes, s.connections.map fun e => e.2.define e.1, s.recentTicks⟩

/-- The snapshot of a definition, with every id given. -/
def ofDefinition (d : Definition) : Snapshot where
  id := d.id
  nodes := d.nodes.map fun n => (n.id, ⟨some n.id, n.name, n.x, n.y, n.data⟩)
  connections := d.connections.map fun c =>
    (c.id, ⟨some c.id, c.source, c.sourceOutput, c.target, c.targetInput⟩)
  recentTicks := d.recentTicks

def ofProgram (p : Program) : Snapshot :=
  ofDefinition p.toDefinition

end Snapshot

/-- The program that a snapshot holds. -/
def Engine.loadSnapshot (e : Engine) (s : Snapshot) : Except LoadError Program :=
  match s.define with
  | .error err => .error err
  | .ok d => e.load d

end Dataflow
