import Dataflow.Json.Printer
import Dataflow.Snapshot.Basic
/-!
# Writing snapshots

The document of a snapshot. Fields come in a fixed order; ids that are not given, display names,
tick entries, recent values and held values are left out when there are none. The properties of a
node stand among the fields of its data.
-/
set_option autoImplicit false

namespace Dataflow

open Json (Value)

def floatValue (x : Float) : Value :=
  .number (.float x)

/-- The member `name` when there is a value for it. -/
def optionalMember (name : String) : Option Value → List (String × Value)
  | some v => [(name, v)]
  | none => []

def TickEntry.toValue (t : TickEntry) : Value :=
  .object (optionalMember "nodeValue" (t.nodeValue.map .string)
    ++ optionalMember "open" (t.isOpen.map .bool))

/-- The document of recent values: what is no finite number is written `null`. -/
def RecentValues.toValue (r : RecentValues) : Value :=
  .array (r.samples.map fun x => if x.isFinite then floatValue x else .null)

def NodeData.toValue (d : NodeData) : Value :=
  .object (("type", .string d.typeName)
    :: optionalMember "orderedDisplayName" (d.displayName.map .string)
    ++ d.properties
    ++ optionalMember "tickEntries"
      (if d.tickEntries.isEmpty then none
        else some (.object (d.tickEntries.toList.map fun e => (e.1, e.2.toValue))))
    ++ optionalMember "recentValues"
      (if d.recentValues.samples.isEmpty then none else some d.recentValues.toValue)
    ++ optionalMember "heldValue" (d.heldValue.map floatValue))

def NodeEntry.toValue (n : NodeEntry) : Value :=
  .object (optionalMember "id" (n.id.map .string)
    ++ [("name", .string n.name), ("x", floatValue n.x), ("y", floatValue n.y),
      ("data", n.data.toValue)])

def ConnectionEntry.toValue (c : ConnectionEntry) : Value :=
  .object (optionalMember "id" (c.id.map .string)
    ++ [("source", .string c.source), ("sourceOutput", .string c.sourceOutput),
      ("target", .string c.target), ("targetInput", .string c.targetInput)])

namespace Snapshot

def toValue (s : Snapshot) : Value :=
  .object (optionalMember "id" (s.id.map .string)
    ++ [("nodes", .object (s.nodes.map fun e => (e.1, e.2.toValue))),
      ("connections", .object (s.connections.map fun e => (e.1, e.2.toValue))),
      ("recentTicks", .array (s.recentTicks.map .string))])

def text (s : Snapshot) : String :=
  s.toValue.indented

end Snapshot

end Dataflow
