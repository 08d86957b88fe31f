import Dataflow.Json.Reader
import Dataflow.Snapshot.Basic
/-!
# Reading snapshots

Which documents are snapshots. A record is an object whose fields may come in any order, each at
most once; except for the data of a node it may also be an array of its fields in a fixed order.
Fields that are not known are ignored, but in the data of a node they are its properties.
-/
set_option autoImplicit false

namespace Dataflow

open Json

/-! ## Recent values and tick entries -/

/-- A sample; `null` stands for what is not a number. -/
def readSample (t : Tree) : Reading Float :=
  (t.readOption Tree.readFloat).map (·.getD Number.nan)

/-- The recent values under `nodeValue`, the last ones if there are several. -/
def readKeyedSamples (old : RecentValues) (key : String) (t : Tree) : Reading RecentValues :=
  if key = "nodeValue" then (t.readList readSample).map .ofList else .ok old

/-- Recent values: a list of samples, an object that keys such lists, or nothing. -/
def RecentValues.read : Tree → Reading RecentValues
  | .null => .ok .empty
  | .array items => (items.mapM readSample).map .ofList
  | .object members => Tree.readFields readKeyedSamples .empty members
  | t => t.mismatch "a list of numbers, or a map with a `nodeValue` list"

structure TickEntryFields where
  nodeValue : Option (Option String) := none
  isOpen : Option (Option Bool) := none

/-- One more field of a tick entry. -/
def TickEntryFields.field (f : TickEntryFields) (key : String) (t : Tree) :
    Reading TickEntryFields :=
  match key with
  | "nodeValue" =>
    (Tree.once key f.nodeValue (t.readOption Tree.readText)).map ({ f with nodeValue := · })
  | "open" => (Tree.once key f.isOpen (t.readOption Tree.readBool)).map ({ f with isOpen := · })
  | _ => .ok f

def TickEntryFields.entry (f : TickEntryFields) : TickEntry :=
  ⟨f.nodeValue.getD none, f.isOpen.getD none⟩

/-- A record with optional fields: an object, or an array with at most as many items as names. -/
def readRecord {σ : Type} (field : σ → String → Tree → Reading σ) (start : σ)
    (expected : String) (names : List String) : Tree → Reading σ
  | .object members => Tree.readFields field start members
  | .array items =>
    match Tree.readPlaces field start names items with
    | .error e => .error e
    | .ok s => if names.length < items.length then .error .tooLong else .ok s
  | t => t.mismatch expected

def TickEntry.read (t : Tree) : Reading TickEntry :=
  (readRecord TickEntryFields.field {} "struct TickEntry" ["nodeValue", "open"] t).map
    TickEntryFields.entry

/-- The entries with one more; the last entry of a tick stays. -/
def readTickEntry (old : TickEntries) (key : String) (t : Tree) : Reading TickEntries :=
  (TickEntry.read t).map (old.insert key ·)

def readTickEntries : Tree → Reading TickEntries
  | .object members => Tree.readFields readTickEntry ∅ members
  | t => t.mismatch "a map"

/-! ## Nodes -/

structure NodeDataFields where
  typeName : Option String := none
  displayName : Option (Option String) := none
  tickEntries : Option TickEntries := none
  recentValues : Option RecentValues := none
  heldValue : Option (Option Float) := none
  properties : List (String × Value) := []

/-- The room for the arrays and objects of a property: the document, its nodes, the node and its
data are around it. -/
def roomOfProperty : Nat := Tree.roomOfDocument - 4

/-- One more field of the data of a node. A key that is not known makes a property. -/
def NodeDataFields.field (f : NodeDataFields) (key : String) (t : Tree) : Reading NodeDataFields :=
  match key with
  | "type" => (Tree.once key f.typeName t.readText).map ({ f with typeName := · })
  | "orderedDisplayName" =>
    (Tree.once key f.displayName (t.readOption Tree.readText)).map ({ f with displayName := · })
  | "tickEntries" =>
    (Tree.once key f.tickEntries (readTickEntries t)).map ({ f with tickEntries := · })
  | "recentValues" =>
    (Tree.once key f.recentValues (RecentValues.read t)).map ({ f with recentValues := · })
  | "heldValue" =>
    (Tree.once key f.heldValue (t.readOption Tree.readFloat)).map ({ f with heldValue := · })
  | _ =>
    (t.readValue roomOfProperty).map fun v =>
      { f with properties := Value.insertMember f.properties key v }

def NodeDataFields.data (f : NodeDataFields) : NodeData where
  typeName := f.typeName.getD ""
  displayName := f.displayName.getD none
  properties := f.properties
  tickEntries := f.tickEntries.getD ∅
  recentValues := f.recentValues.getD .empty
  heldValue := f.heldValue.getD none

def NodeData.read : Tree → Reading NodeData
  | .object members => (Tree.readFields NodeDataFields.field {} members).map NodeDataFields.data
  | t => t.mismatch "struct NodeDataSnapshot"

structure NodeFields where
  id : Option (Option String) := none
  name : Option String := none
  x : Option Float := none
  y : Option Float := none
  data : Option NodeData := none

/-- The room for the arrays and objects of an id in an entry: the document, its table and the
entry are around it. -/
def roomOfEntryId : Nat := Tree.roomOfDocument - 3

def NodeFields.field (f : NodeFields) (key : String) (t : Tree) : Reading NodeFields :=
  match key with
  | "id" => (Tree.once key f.id (t.readOptionalId roomOfEntryId)).map ({ f with id := · })
  | "name" => (Tree.once key f.name t.readText).map ({ f with name := · })
  | "x" => (Tree.once key f.x t.readFloat).map ({ f with x := · })
  | "y" => (Tree.once key f.y t.readFloat).map ({ f with y := · })
  | "data" => (Tree.once key f.data (NodeData.read t)).map ({ f with data := · })
  | _ => .ok f

def NodeFields.entry (f : NodeFields) : NodeEntry :=
  ⟨f.id.getD none, f.name.getD "", f.x.getD 0.0, f.y.getD 0.0, f.data.getD {}⟩

def NodeEntry.read (t : Tree) : Reading NodeEntry :=
  (readRecord NodeFields.field {} "struct NodeSnapshot" ["id", "name", "x", "y", "data"] t).map
    NodeFields.entry

/-! ## Connections -/

structure ConnectionFields where
  id : Option (Option String) := none
  source : Option String := none
  sourceOutput : Option String := none
  target : Option String := none
  targetInput : Option String := none

def ConnectionFields.field (f : ConnectionFields) (key : String) (t : Tree) :
    Reading ConnectionFields :=
  match key with
  | "id" => (Tree.once key f.id (t.readOptionalId roomOfEntryId)).map ({ f with id := · })
  | "source" => (Tree.once key f.source (t.readId roomOfEntryId)).map ({ f with source := · })
  | "sourceOutput" => (Tree.once key f.sourceOutput t.readText).map ({ f with sourceOutput := · })
  | "target" => (Tree.once key f.target (t.readId roomOfEntryId)).map ({ f with target := · })
  | "targetInput" => (Tree.once key f.targetInput t.readText).map ({ f with targetInput := · })
  | _ => .ok f

def require {α : Type} (name : String) : Option α → Reading α
  | some a => .ok a
  | none => .error (.missingField name)

/-- The connection with the fields that were met. The first required field that is missing is
named. -/
def ConnectionFields.entry (f : ConnectionFields) : Reading ConnectionEntry :=
  match require "source" f.source, require "sourceOutput" f.sourceOutput,
    require "target" f.target, require "targetInput" f.targetInput with
  | .ok source, .ok sourceOutput, .ok target, .ok targetInput =>
    .ok ⟨f.id.getD none, source, sourceOutput, target, targetInput⟩
  | .error e, _, _, _ => .error e
  | _, .error e, _, _ => .error e
  | _, _, .error e, _ => .error e
  | _, _, _, .error e => .error e

/-- The names of the fields of a connection in the order of an array. -/
def connectionNames : List String :=
  ["id", "source", "sourceOutput", "target", "targetInput"]

/-- A connection. As an array it needs all its fields; the id, which comes first, counts as missing
only when a required field does. -/
def ConnectionEntry.read : Tree → Reading ConnectionEntry
  | .array items =>
    match Tree.readPlaces ConnectionFields.field {} connectionNames items with
    | .error e => .error e
    | .ok f =>
      if items.length < connectionNames.length then
        .error (.tooShort (max items.length 1) "struct ConnectionSnapshot with 5 elements")
      else if connectionNames.length < items.length then .error .tooLong
      else f.entry
  | t =>
    match readRecord ConnectionFields.field {} "struct ConnectionSnapshot" connectionNames t with
    | .error e => .error e
    | .ok f => f.entry

/-! ## Programs -/

/-- Entries by key, in the order of the document; `null` stands for none. -/
def readEntries {α : Type} (read : Tree → Reading α) : Tree → Reading (List (String × α))
  | .null => .ok []
  | .object members =>
    (Tree.readFields (fun done key t => (read t).map fun a => (key, a) :: done) [] members).map
      List.reverse
  | t => t.mismatch "an object keyed by id"

structure SnapshotFields where
  id : Option (Option String) := none
  nodes : Option (List (String × NodeEntry)) := none
  connections : Option (List (String × ConnectionEntry)) := none
  recentTicks : Option (List String) := none

/-- The room for the arrays and objects of a program's id: the document is around it. -/
def roomOfProgramId : Nat := Tree.roomOfDocument - 1

def SnapshotFields.field (f : SnapshotFields) (key : String) (t : Tree) : Reading SnapshotFields :=
  match key with
  | "id" => (Tree.once key f.id (t.readOptionalId roomOfProgramId)).map ({ f with id := · })
  | "nodes" =>
    (Tree.once key f.nodes (readEntries NodeEntry.read t)).map ({ f with nodes := · })
  | "connections" =>
    (Tree.once key f.connections (readEntries ConnectionEntry.read t)).map
      ({ f with connections := · })
  | "recentTicks" =>
    (Tree.once key f.recentTicks (t.readList Tree.readText)).map ({ f with recentTicks := · })
  | _ => .ok f

def SnapshotFields.snapshot (f : SnapshotFields) : Snapshot :=
  ⟨f.id.getD none, f.nodes.getD [], f.connections.getD [], f.recentTicks.getD []⟩

def Snapshot.read (t : Tree) : Reading Snapshot :=
  (readRecord SnapshotFields.field {} "struct ProgramSnapshot"
    ["id", "nodes", "connections", "recentTicks"] t).map SnapshotFields.snapshot

/-! ## Texts and files -/

/-- Why a text is not what is read from it. -/
inductive ReadError where
  | malformed
  | misfit (m : Misfit)
deriving Repr

def ReadError.message : ReadError → String
  | malformed => "Failed to parse program snapshot: the text is not well-formed JSON"
  | misfit m => "Failed to parse program snapshot: " ++ m.message

/-- What a text holds, read from its tree. -/
def readText {α : Type} (read : Tree → Reading α) (s : String) : Except ReadError α :=
  match Tree.ofText? s with
  | none => .error .malformed
  | some t =>
    match read t with
    | .error m => .error (.misfit m)
    | .ok a => .ok a

def Snapshot.ofText (s : String) : Except ReadError Snapshot :=
  readText Snapshot.read s

def RecentValues.ofText (s : String) : Except ReadError RecentValues :=
  readText RecentValues.read s

end Dataflow
