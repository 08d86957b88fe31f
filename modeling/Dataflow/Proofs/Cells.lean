import Dataflow.Proofs.Labels
import Dataflow.Proofs.Markup
/-!
# The cells at which edges end

The text of a diagram has the rows of one table after the other, then a line for each edge
(`Program.text_diagram`). A table gives a row to every pin that an edge of the diagram may end at. Rows
of inputs, of outputs and of properties look different whatever names and texts stand in them, so a row
says which pin it is of. Main statement: the edges are the connections, and each end of an edge that is
at a node has exactly one cell, while every such cell has an edge (`Program.edges_end_at_cells`).
-/
set_option autoImplicit false

namespace Dataflow

/-! ## Lines -/

/-- A block of lines that is joined first and then among other lines. -/
theorem intercalate_block (sep : String) {block : List String} (h : block ≠ [])
    (before after : List String) : sep.intercalate (before ++ sep.intercalate block :: after)
      = sep.intercalate (before ++ block ++ after) := by
  have hblock : sep.intercalate (sep.intercalate block :: after) = sep.intercalate (block ++ after) := by
    cases after with
    | nil => rw [String.intercalate_singleton, List.append_nil]
    | cons line rest =>
      rw [String.intercalate_cons_cons,
        String.intercalate_append_of_ne_nil h (List.cons_ne_nil line rest)]
  cases before with
  | nil => exact hblock
  | cons line rest =>
    have hbefore := List.cons_ne_nil line rest
    rw [List.append_assoc, String.intercalate_append_of_ne_nil hbefore (List.cons_ne_nil _ _), hblock,
      String.intercalate_append_of_ne_nil hbefore (List.append_ne_nil_of_left_ne_nil h after)]

/-- Blocks of lines, each joined first, give the same text as all their lines. -/
theorem intercalate_blocks {α : Type} (sep : String) {block : α → List String} (h : ∀ a, block a ≠ [])
    (before after : List String) (items : List α) :
    sep.intercalate (before ++ (items.map fun a => sep.intercalate (block a)) ++ after)
      = sep.intercalate (before ++ items.flatMap block ++ after) := by
  induction items generalizing before with
  | nil => rfl
  | cons a rest ih =>
    have hrest := ih (before ++ block a)
    simp only [List.append_assoc] at hrest
    simp only [List.map_cons, List.flatMap_cons, List.append_assoc, List.cons_append]
    rw [intercalate_block sep (h a), List.append_assoc, hrest]

/-! ## Rows -/

namespace NodeTable

theorem inputRow_eq (pin : String) : inputRow pin
    = "      <tr><td port=\"" ++ cell pin ++ "\">Input</td><td>" ++ cell pin ++ "</td></tr>" := by
  refine String.toList_injective ?_
  simp [inputRow, row, portCell, plainCell]

theorem outputRow_eq (pin : String) : outputRow pin
    = "      <tr><td>Output</td><td port=\"" ++ cell pin ++ "\">" ++ cell pin ++ "</td></tr>" := by
  refine String.toList_injective ?_
  simp [outputRow, row, portCell, plainCell]

theorem propertyRow_eq (key text : String) : propertyRow key text
    = "      <tr><td>" ++ cell key ++ "</td><td>" ++ cell text ++ "</td></tr>" := by
  refine String.toList_injective ?_
  simp [propertyRow, row, plainCell]

/-- Rows are equal only when their cells are, read one after the other. -/
theorem row_inj {left right left' right' : String} (h : row left right = row left' right') :
    left ++ (right ++ "</tr>") = left' ++ (right' ++ "</tr>") := by
  have hchars := congrArg String.toList h
  simp only [row, String.toList_append, List.append_assoc] at hchars
  refine String.toList_injective ?_
  simpa only [String.toList_append] using List.append_cancel_left hchars

/-- A cell ends at the first bracket, so its content is known from the text that begins with it. -/
theorem plainCell_append_inj {content content' rest rest' : String} (hc : '<' ∉ content.toList)
    (hc' : '<' ∉ content'.toList) (h : plainCell content ++ rest = plainCell content' ++ rest') :
    content = content' ∧ rest = rest' := by
  have hclose : "</td>".toList = '<' :: "/td>".toList := by simp
  have hchars := congrArg String.toList h
  simp only [plainCell, String.toList_append, List.append_assoc, hclose, List.cons_append] at hchars
  obtain ⟨hcontent, hrest⟩ :=
    append_cons_inj_of_notMem_left hc hc' (List.append_cancel_left hchars)
  exact ⟨String.toList_injective hcontent, String.toList_injective (List.append_cancel_left hrest)⟩

/-- The pin of a cell ends at the first quote. -/
theorem portCell_append_inj {pin pin' content content' rest rest' : String}
    (h : portCell pin content ++ rest = portCell pin' content' ++ rest') : pin = pin' := by
  have hclose : "\">".toList = '"' :: ">".toList := by simp
  have hquote : ∀ s, '"' ∉ escapeMarkup s := notMem_escapeMarkup (by decide)
  have hchars := congrArg String.toList h
  simp only [portCell, cell, String.toList_append, String.toList_ofList, List.append_assoc, hclose,
    List.cons_append] at hchars
  have hpins := append_cons_inj_of_notMem_left (hquote _) (hquote _) (List.append_cancel_left hchars)
  exact cell_injective (congrArg String.ofList hpins.1)

theorem plainCell_append_ne_portCell_append (content rest pin content' rest' : String) :
    plainCell content ++ rest ≠ portCell pin content' ++ rest' := by
  intro h
  have hchars := congrArg (fun s => s.toList[3]?) h
  simp only [plainCell, portCell, String.toList_append] at hchars
  exact absurd hchars (by simp)

theorem bracket_notMem_cell (s : String) : '<' ∉ (cell s).toList := by
  rw [cell, String.toList_ofList]
  exact notMem_escapeMarkup (by decide) _

/-- A row of an input says which. -/
theorem inputRow_injective : Function.Injective inputRow := by
  intro pin pin' h
  exact portCell_append_inj (row_inj h)

/-- A row of an output says which. -/
theorem outputRow_injective : Function.Injective outputRow := by
  intro pin pin' h
  exact portCell_append_inj (plainCell_append_inj (by simp) (by simp) (row_inj h)).2

theorem inputRow_ne_outputRow (pin pin' : String) : inputRow pin ≠ outputRow pin' := by
  intro h
  exact plainCell_append_ne_portCell_append _ _ _ _ _ (row_inj h).symm

theorem inputRow_ne_propertyRow (pin key text : String) : inputRow pin ≠ propertyRow key text := by
  intro h
  exact plainCell_append_ne_portCell_append _ _ _ _ _ (row_inj h).symm

/-- A property called Output is no output: its second cell has no pin. -/
theorem outputRow_ne_propertyRow (pin key text : String) : outputRow pin ≠ propertyRow key text := by
  intro h
  have hright := (plainCell_append_inj (by simp) (bracket_notMem_cell key) (row_inj h)).2
  exact plainCell_append_ne_portCell_append _ _ _ _ _ hright.symm

theorem count_map_eq_zero {α : Type} {f : α → String} {row : String} (h : ∀ a, f a ≠ row)
    (l : List α) : (l.map f).count row = 0 := by
  rw [List.count_eq_zero, List.mem_map]
  rintro ⟨a, -, ha⟩
  exact h a ha

/-- A table has as many rows of an input as it lists the input. -/
theorem count_inputRow (t : NodeTable) (pin : String) :
    t.rows.count (inputRow pin) = t.inputs.count pin := by
  have hproperties := count_map_eq_zero
    (fun row : String × String => (inputRow_ne_propertyRow pin row.1 row.2).symm) t.properties
  have houtputs := count_map_eq_zero (fun pin' => (inputRow_ne_outputRow pin pin').symm) t.outputs
  rw [rows, List.count_append, List.count_append, hproperties, houtputs,
    List.count_map_of_injective _ _ inputRow_injective]
  rfl

theorem count_outputRow (t : NodeTable) (pin : String) :
    t.rows.count (outputRow pin) = t.outputs.count pin := by
  have hinputs := count_map_eq_zero (fun pin' => inputRow_ne_outputRow pin' pin) t.inputs
  have hproperties := count_map_eq_zero
    (fun row : String × String => (outputRow_ne_propertyRow pin row.1 row.2).symm) t.properties
  rw [rows, List.count_append, List.count_append, hinputs, hproperties,
    List.count_map_of_injective _ _ outputRow_injective, Nat.zero_add]

end NodeTable

/-! ## Tables and edges -/

namespace Program

theorem inputs_nodeTable (p : Program) (n : Node) : (p.nodeTable n).inputs
    = ((p.incoming n.id).map (·.targetInput)).eraseDups.filter (p.isFed n.id) :=
  p.pins_feeders n.id

theorem outputs_nodeTable (p : Program) (n : Node) :
    (p.nodeTable n).outputs = ((p.outgoing n.id).map (·.sourceOutput)).eraseDups :=
  p.pins_outputSockets n.id

theorem mem_inputs_nodeTable {p : Program} {n : Node} {pin : String} :
    pin ∈ (p.nodeTable n).inputs ↔
      ∃ c ∈ p.connections, c.target = n.id ∧ c.targetInput = pin ∧ p.hasNode c.source :=
  mem_pins_feeders

theorem mem_outputs_nodeTable {p : Program} {n : Node} {pin : String} :
    pin ∈ (p.nodeTable n).outputs ↔
      ∃ c ∈ p.connections, c.source = n.id ∧ c.sourceOutput = pin := by
  rw [outputs_nodeTable, List.mem_eraseDups, List.mem_map]
  simp only [outgoing, List.mem_filter, beq_iff_eq, and_assoc]

theorem nodup_inputs_nodeTable (p : Program) (n : Node) : (p.nodeTable n).inputs.Nodup :=
  p.nodup_pins_feeders n.id

theorem nodup_outputs_nodeTable (p : Program) (n : Node) : (p.nodeTable n).outputs.Nodup :=
  Socket.nodup_pins_group _

/-- An end of an edge at a node is called as the table of the node. -/
theorem labelOf_eq_label {p : Program} {id : String} {n : Node} (h : p.node? id = some n) :
    p.labelOf id = (p.nodeTable n).label := by
  rw [nodeTable, (mem_of_node? h).2]

theorem text_nodeTable (p : Program) (n : Node) : (p.nodeTable n).text = "\n".intercalate
    (["  " ++ quotedName (p.labelOf n.id) ++ " [label=<", "    <table>"] ++ (p.nodeTable n).rows
      ++ ["    </table>", "  >];"]) :=
  rfl

theorem text_edge (p : Program) (c : Connection) : (p.edge c).text
    = "  " ++ quotedName (p.labelOf c.source) ++ ":" ++ quotedName c.sourceOutput ++ " -> "
      ++ quotedName (p.labelOf c.target) ++ ":" ++ quotedName c.targetInput ++ ";" :=
  rfl

/-- The lines of a description: those of one table for each node and one line for each connection. -/
theorem text_diagram (p : Program) : p.diagram.text = "\n".intercalate
    (["digraph dataflow \x7b", "  rankdir=LR;", "  node [shape=plain];", ""]
      ++ (p.nodes.flatMap fun n =>
        ["  " ++ quotedName (p.labelOf n.id) ++ " [label=<", "    <table>"] ++ (p.nodeTable n).rows
          ++ ["    </table>", "  >];"])
      ++ [""]
      ++ (p.connections.map fun c =>
        "  " ++ quotedName (p.labelOf c.source) ++ ":" ++ quotedName c.sourceOutput ++ " -> "
          ++ quotedName (p.labelOf c.target) ++ ":" ++ quotedName c.targetInput ++ ";")
      ++ ["\x7d"]) := by
  rw [List.append_assoc, List.append_assoc, ← intercalate_blocks _ (by simp)]
  simp only [Diagram.text, diagram, List.map_map, Function.comp_def, text_nodeTable, text_edge,
    List.append_assoc]

/-- **Edges end at cells that exist.** The description has the lines of one table for each node and one
line for each connection, in the order of the program. A table starts with the label of its node; a
line of a connection has the labels and the pins of its two ends. Where both ends of a connection
exist, the table of the source has one row of the output and the table of the target one row of the
input. The other way round, each output that has a row is left by a connection, and each input that has
one is fed by an existing node. The rows list the pins of either side once, in the order of their first
connections. -/
theorem edges_end_at_cells (p : Program) :
    p.diagram.text = "\n".intercalate
      (["digraph dataflow \x7b", "  rankdir=LR;", "  node [shape=plain];", ""]
        ++ (p.nodes.flatMap fun n =>
          ["  " ++ quotedName (p.labelOf n.id) ++ " [label=<", "    <table>"] ++ (p.nodeTable n).rows
            ++ ["    </table>", "  >];"])
        ++ [""]
        ++ (p.connections.map fun c =>
          "  " ++ quotedName (p.labelOf c.source) ++ ":" ++ quotedName c.sourceOutput ++ " -> "
            ++ quotedName (p.labelOf c.target) ++ ":" ++ quotedName c.targetInput ++ ";")
        ++ ["\x7d"]) ∧
    (∀ pin, NodeTable.inputRow pin
      = "      <tr><td port=\"" ++ cell pin ++ "\">Input</td><td>" ++ cell pin ++ "</td></tr>") ∧
    (∀ key text, NodeTable.propertyRow key text
      = "      <tr><td>" ++ cell key ++ "</td><td>" ++ cell text ++ "</td></tr>") ∧
    (∀ pin, NodeTable.outputRow pin
      = "      <tr><td>Output</td><td port=\"" ++ cell pin ++ "\">" ++ cell pin ++ "</td></tr>") ∧
    (∀ c ∈ p.connections, ∀ s t, p.node? c.source = some s → p.node? c.target = some t →
      p.edge c = ⟨(p.nodeTable s).label, c.sourceOutput, (p.nodeTable t).label, c.targetInput⟩ ∧
      (p.nodeTable s).rows.count (NodeTable.outputRow c.sourceOutput) = 1 ∧
      (p.nodeTable t).rows.count (NodeTable.inputRow c.targetInput) = 1) ∧
    ∀ n ∈ p.nodes,
      (∀ pin, NodeTable.outputRow pin ∈ (p.nodeTable n).rows ↔
        ∃ c ∈ p.connections, c.source = n.id ∧ c.sourceOutput = pin) ∧
      (∀ pin, NodeTable.inputRow pin ∈ (p.nodeTable n).rows ↔
        ∃ c ∈ p.connections, c.target = n.id ∧ c.targetInput = pin ∧ p.hasNode c.source) ∧
      (p.nodeTable n).inputs
        = ((p.incoming n.id).map (·.targetInput)).eraseDups.filter (p.isFed n.id) ∧
      (p.nodeTable n).outputs = ((p.outgoing n.id).map (·.sourceOutput)).eraseDups ∧
      (p.nodeTable n).inputs.Nodup ∧ (p.nodeTable n).outputs.Nodup ∧
      (p.nodeTable n).rows = (p.nodeTable n).inputs.map NodeTable.inputRow
        ++ (p.propertyRows n).map (fun row => NodeTable.propertyRow row.1 row.2)
        ++ (p.nodeTable n).outputs.map NodeTable.outputRow := by
  refine ⟨text_diagram p, NodeTable.inputRow_eq, NodeTable.propertyRow_eq, NodeTable.outputRow_eq, ?_,
    ?_⟩
  · intro c hc s t hs ht
    obtain ⟨-, hsource⟩ := mem_of_node? hs
    obtain ⟨-, htarget⟩ := mem_of_node? ht
    have hout : c.sourceOutput ∈ (p.nodeTable s).outputs :=
      mem_outputs_nodeTable.mpr ⟨c, hc, hsource.symm, rfl⟩
    have hin : c.targetInput ∈ (p.nodeTable t).inputs :=
      mem_inputs_nodeTable.mpr ⟨c, hc, htarget.symm, rfl, hasNode_of_node? hs⟩
    refine ⟨?_, ?_, ?_⟩
    · rw [edge, labelOf_eq_label hs, labelOf_eq_label ht]
    · rw [NodeTable.count_outputRow]
      exact List.count_eq_one_of_mem (nodup_outputs_nodeTable p s) hout
    · rw [NodeTable.count_inputRow]
      exact List.count_eq_one_of_mem (nodup_inputs_nodeTable p t) hin
  · intro n _
    refine ⟨fun pin => ?_, fun pin => ?_, inputs_nodeTable p n, outputs_nodeTable p n,
      nodup_inputs_nodeTable p n, nodup_outputs_nodeTable p n, rfl⟩
    · rw [← List.count_pos_iff, NodeTable.count_outputRow, List.count_pos_iff, mem_outputs_nodeTable]
    · rw [← List.count_pos_iff, NodeTable.count_inputRow, List.count_pos_iff, mem_inputs_nodeTable]

/-- A number that feeds one input of a sum twice and an input that sums do not have, next to missing
nodes at both sides. -/
def tangled : Program where
  id := none
  nodes := [⟨.ofType "sum" "Math", .math⟩, ⟨.ofType "five" "Number", .number⟩]
  connections :=
    [⟨"1", "five", "value", "sum", "num9"⟩, ⟨"2", "x", "value", "sum", "num2"⟩,
      ⟨"3", "five", "value", "sum", "num1"⟩, ⟨"4", "five", "active", "sum", "num1"⟩,
      ⟨"5", "x", "value", "sum", "num1"⟩, ⟨"6", "sum", "value", "y", "num1"⟩]
  recentTicks := []
  nodes_nodup := by decide
  connections_nodup := by decide

/-- The description of the program, line by line. The edge of the fourth connection has its cells; the
input that only the missing node feeds has none. -/
theorem edges_end_at_cells_tangled :
    tangled.diagram.text = "\n".intercalate
      ["digraph dataflow \x7b",
        "  rankdir=LR;",
        "  node [shape=plain];",
        "",
        "  \"Math:Math\" [label=<",
        "    <table>",
        "      <tr><td port=\"num9\">Input</td><td>num9</td></tr>",
        "      <tr><td port=\"num1\">Input</td><td>num1</td></tr>",
        "      <tr><td>formula</td><td>Number:Number ? unset_num2 = nodeValue</td></tr>",
        "      <tr><td>formulaWithValues</td><td>NaN ? unset_num2 = NaN</td></tr>",
        "      <tr><td>Output</td><td port=\"value\">value</td></tr>",
        "    </table>",
        "  >];",
        "  \"Number:Number\" [label=<",
        "    <table>",
        "      <tr><td>Output</td><td port=\"value\">value</td></tr>",
        "      <tr><td>Output</td><td port=\"active\">active</td></tr>",
        "    </table>",
        "  >];",
        "",
        "  \"Number:Number\":\"value\" -> \"Math:Math\":\"num9\";",
        "  \"x\":\"value\" -> \"Math:Math\":\"num2\";",
        "  \"Number:Number\":\"value\" -> \"Math:Math\":\"num1\";",
        "  \"Number:Number\":\"active\" -> \"Math:Math\":\"num1\";",
        "  \"x\":\"value\" -> \"Math:Math\":\"num1\";",
        "  \"Math:Math\":\"value\" -> \"y\":\"num1\";",
        "\x7d"] ∧
    ∃ s n, tangled.node? "sum" = some s ∧ tangled.node? "five" = some n ∧
      (tangled.nodeTable n).rows.count (NodeTable.outputRow "active") = 1 ∧
      (tangled.nodeTable s).rows.count (NodeTable.inputRow "num1") = 1 ∧
      NodeTable.inputRow "num2" ∉ (tangled.nodeTable s).rows ∧
      (tangled.nodeTable s).inputs = ["num9", "num1"] ∧
      (tangled.nodeTable n).outputs = ["value", "active"] := by
  have hs : tangled.node? "sum" = some ⟨.ofType "sum" "Math", .math⟩ := by rfl
  have hn : tangled.node? "five" = some ⟨.ofType "five" "Number", .number⟩ := by rfl
  obtain ⟨htext, -, -, -, hends, htables⟩ := edges_end_at_cells tangled
  obtain ⟨-, hout, hin⟩ := hends ⟨"4", "five", "active", "sum", "num1"⟩ (by decide) _ _ hn hs
  obtain ⟨-, hfed, hinputs, -⟩ := htables _ (mem_of_node? hs).1
  obtain ⟨-, -, -, houtputs, -⟩ := htables _ (mem_of_node? hn).1
  refine ⟨htext.trans (congrArg _ rfl), _, _, hs, hn, hout, hin, ?_,
    hinputs.trans (by decide), houtputs.trans (by decide)⟩
  rw [hfed]
  decide

end Program

end Dataflow
