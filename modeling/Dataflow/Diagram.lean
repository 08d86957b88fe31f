import Dataflow.Formula
import Dataflow.Json.Printer
/-!
# Diagrams

A program as a graph in the DOT language: one table for each node, with its connected pins and
its properties, and one edge for each connection.
-/
set_option autoImplicit false

namespace Dataflow

structure NodeTable where
  label : String
  /-- The input pins that an existing node feeds. -/
  inputs : List String
  /-- The names and texts of the property rows. -/
  properties : List (String × String)
  /-- The output pins out of which something leads. -/
  outputs : List String
deriving DecidableEq, Repr

structure Edge where
  source : String
  sourcePin : String
  target : String
  targetPin : String
deriving DecidableEq, Repr

/-- The tables and edges of a graph, in the order in which they are written. -/
structure Diagram where
  tables : List NodeTable
  edges : List Edge
deriving DecidableEq, Repr

/-! ## Quoting -/

def replaceChar (c : Char) (t : List Char) (s : List Char) : List Char :=
  s.flatMap fun x => if x = c then t else [x]

/-- The text of a table cell: the four characters that markup uses are replaced by entities, the
ampersand first so that the entities themselves stay. -/
def escapeMarkup (s : List Char) : List Char :=
  replaceChar '"' "&quot;".toList
    (replaceChar '>' "&gt;".toList
      (replaceChar '<' "&lt;".toList
        (replaceChar '&' "&amp;".toList s)))

/-- The text of a quoted name: every quote gets a backslash. -/
def escapeName (s : List Char) : List Char :=
  replaceChar '"' ['\\', '"'] s

/-! ## Content -/

/-- A property as the text of its cell. Whole numbers are written with all their digits as long as
they fit 64 bits with a sign; other numbers are written as they are recorded. -/
def cellText : Json.Value → String
  | .string s => s
  | .number (.integer n) =>
    if n < Json.Number.signedBound then (Json.Number.integer n).text
    else Number.text (Json.Number.integer n).toFloat
  | .number (.float x) => Number.text x
  | v => v.compact

/-- The rows with `text` under `key`: in the place of the old text, or at the end. -/
def setRow : List (String × String) → String → String → List (String × String)
  | [], key, text => [(key, text)]
  | (k, t) :: rest, key, text =>
    if k = key then (key, text) :: rest else (k, t) :: setRow rest key text

namespace Program

/-- The property rows of a node: its configuration as far as it is plain, then its current value
and its formula. -/
def propertyRows (p : Program) (n : Node) : List (String × String) :=
  let rows := (n.data.properties.filter fun e => !e.2.isContainer).map fun e => (e.1, cellText e.2)
  let rows :=
    match p.currentValue? n.id with
    | some value => setRow rows "nodeValue" value
    | none => rows
  match p.formulaOf n with
  | some f => setRow (setRow rows "formula" f.symbolic) "formulaWithValues" f.withValues
  | none => rows

def nodeTable (p : Program) (n : Node) : NodeTable where
  label := p.labelOf n.id
  inputs := (p.feeders n.id).map (·.1)
  properties := p.propertyRows n
  outputs := (p.outputSockets n.id).map (·.pin)

/-- The edge of a connection. An end without a node is labelled with its id. -/
def edge (p : Program) (c : Connection) : Edge :=
  ⟨p.labelOf c.source, c.sourceOutput, p.labelOf c.target, c.targetInput⟩

/-- The diagram of a program: a table for each node and an edge for each connection, in the order
of their tables. -/
def diagram (p : Program) : Diagram :=
  ⟨p.nodes.map p.nodeTable, p.connections.map p.edge⟩

end Program

/-! ## Text -/

def cell (s : String) : String :=
  String.ofList (escapeMarkup s.toList)

def quotedName (s : String) : String :=
  String.ofList ('"' :: escapeName s.toList ++ ['"'])

namespace NodeTable

/-- A cell with the given content. -/
def plainCell (content : String) : String :=
  "<td>" ++ content ++ "</td>"

/-- A cell at which edges end. -/
def portCell (pin content : String) : String :=
  "<td port=\"" ++ cell pin ++ "\">" ++ content ++ "</td>"

def row (left right : String) : String :=
  "      <tr>" ++ left ++ right ++ "</tr>"

/-- The row of an input pin; edges lead to the left cell. -/
def inputRow (pin : String) : String :=
  row (portCell pin "Input") (plainCell (cell pin))

def propertyRow (key text : String) : String :=
  row (plainCell (cell key)) (plainCell (cell text))

/-- The row of an output pin; edges leave from the right cell. -/
def outputRow (pin : String) : String :=
  row (plainCell "Output") (portCell pin (cell pin))

def rows (t : NodeTable) : List String :=
  t.inputs.map inputRow ++ t.properties.map (fun row => propertyRow row.1 row.2)
    ++ t.outputs.map outputRow

def text (t : NodeTable) : String :=
  "\n".intercalate
    (["  " ++ quotedName t.label ++ " [label=<", "    <table>"] ++ t.rows
      ++ ["    </table>", "  >];"])

end NodeTable

def Edge.text (e : Edge) : String :=
  "  " ++ quotedName e.source ++ ":" ++ quotedName e.sourcePin ++ " -> " ++ quotedName e.target
    ++ ":" ++ quotedName e.targetPin ++ ";"

def Diagram.text (d : Diagram) : String :=
  "\n".intercalate
    (["digraph dataflow \x7b", "  rankdir=LR;", "  node [shape=plain];", ""]
      ++ d.tables.map NodeTable.text ++ [""] ++ d.edges.map Edge.text ++ ["\x7d"])

end Dataflow
