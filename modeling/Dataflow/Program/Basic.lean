import Dataflow.Kind
import Dataflow.Program.Definition
/-!
# Loaded programs

A program whose nodes all have a known kind and whose ids are unambiguous. Nodes and connections
keep the order of their tables. A program is built up by adding one node or connection at a time;
an addition that would break an invariant is refused with its cause.
-/
set_option autoImplicit false

namespace Dataflow

/-- A node whose kind is known. -/
structure Node extends NodeDefinition where
  kind : Kind

/-- Why a definition is no program. -/
inductive LoadError where
  /-- The node is filed under `key` but calls itself `id`. -/
  | idMismatch (key id : String)
  | noType (id : String)
  /-- No kind goes by the name of the node's type. -/
  | unsupportedType (id typeName : String)
  | duplicateNode (id : String)
  | duplicateConnection (id : String)
deriving DecidableEq, Repr

def LoadError.message : LoadError → String
  | idMismatch key id =>
    "Invalid snapshot data: node keyed '" ++ key ++ "' declares id '" ++ id ++ "'"
  | noType id => "Invalid snapshot data: node '" ++ id ++ "' has no type"
  | unsupportedType id typeName =>
    "Node '" ++ id ++ "' has an unsupported node type: '" ++ typeName ++ "'"
  | duplicateNode id => "Node '" ++ id ++ "' is defined more than once"
  | duplicateConnection id => "Connection '" ++ id ++ "' is defined more than once"

structure Program where
  id : Option String
  nodes : List Node
  connections : List Connection
  /-- The ticks that were recorded, oldest first. -/
  recentTicks : List String
  nodes_nodup : (nodes.map (·.id)).Nodup
  connections_nodup : (connections.map (·.id)).Nodup

namespace Program

def blank (id : Option String) (recentTicks : List String) : Program where
  id := id
  nodes := []
  connections := []
  recentTicks := recentTicks
  nodes_nodup := .nil
  connections_nodup := .nil

/-! ## Building -/

theorem nodup_map_append_singleton {α : Type} {f : α → String} {l : List α} {a : α}
    (hl : (l.map f).Nodup) (ha : f a ∉ l.map f) : ((l ++ [a]).map f).Nodup := by
  rw [List.map_append, List.nodup_append]
  refine ⟨hl, by simp, fun x hx y hy hxy => ?_⟩
  simp only [List.map_cons, List.map_nil, List.mem_singleton] at hy
  exact ha (hy ▸ hxy ▸ hx)

/-- The program with one more node. The type is looked up before the id is compared. -/
def addNode (catalog : Catalog) (p : Program) (d : NodeDefinition) : Except LoadError Program :=
  match catalog.resolve? d.data.typeName with
  | none => .error (.unsupportedType d.id d.data.typeName)
  | some kind =>
    if h : d.id ∈ p.nodes.map (·.id) then .error (.duplicateNode d.id)
    else .ok
      { p with
        nodes := p.nodes ++ [{ d with kind := kind }]
        nodes_nodup := nodup_map_append_singleton p.nodes_nodup h }

def addConnection (p : Program) (c : Connection) : Except LoadError Program :=
  if h : c.id ∈ p.connections.map (·.id) then .error (.duplicateConnection c.id)
  else .ok
    { p with
      connections := p.connections ++ [c]
      connections_nodup := nodup_map_append_singleton p.connections_nodup h }

/-- The program of a definition: first all nodes, then all connections. -/
def ofDefinition? (catalog : Catalog) (d : Definition) : Except LoadError Program :=
  match d.nodes.foldlM (addNode catalog) (blank d.id d.recentTicks) with
  | .error e => .error e
  | .ok p => d.connections.foldlM addConnection p

/-- The definition of a program, with its history. -/
def toDefinition (p : Program) : Definition where
  id := p.id
  nodes := p.nodes.map (·.toNodeDefinition)
  connections := p.connections
  recentTicks := p.recentTicks

/-! ## Looking up -/

def node? (p : Program) (id : String) : Option Node :=
  p.nodes.find? (·.id == id)

def hasNode (p : Program) (id : String) : Bool :=
  p.nodes.any (·.id == id)

def connection? (p : Program) (id : String) : Option Connection :=
  p.connections.find? (·.id == id)

/-- The connections into a node, in table order. -/
def incoming (p : Program) (id : String) : List Connection :=
  p.connections.filter (·.target == id)

/-- The connections out of a node, in table order. -/
def outgoing (p : Program) (id : String) : List Connection :=
  p.connections.filter (·.source == id)

def currentTick? (p : Program) : Option String :=
  p.recentTicks.getLast?

/-- The text of the value that a node recorded at the last tick. -/
def currentValue? (p : Program) (id : String) : Option String :=
  match p.currentTick?, p.node? id with
  | some tick, some n => n.valueAt? tick
  | _, _ => none

/-! ## Changing data -/

/-- The program with the data of every node changed; ids, kinds and the tables stay. -/
def mapData (p : Program) (f : Node → NodeData) : Program where
  id := p.id
  nodes := p.nodes.map fun n => { n with data := f n }
  connections := p.connections
  recentTicks := p.recentTicks
  nodes_nodup := by
    have h : (fun n : Node => n.id) ∘ (fun n : Node => { n with data := f n }) = fun n => n.id := rfl
    rw [List.map_map, h]
    exact p.nodes_nodup
  connections_nodup := p.connections_nodup

def mapDataOf (p : Program) (id : String) (f : NodeData → NodeData) : Program :=
  p.mapData fun n => if n.id = id then f n.data else n.data

def withRecentTicks (p : Program) (ticks : List String) : Program :=
  { p with recentTicks := ticks }

end Program

end Dataflow
