import Dataflow.Formula
import Dataflow.Proofs.Sockets
import Dataflow.Proofs.Tick
/-!
# What formulas show of a tick

A formula names for each input pin the source of the last connection whose source exists, with the
value that this node recorded. The pass fills the pin from the last connection whose source also has
the named output. Main statement: where the connection that a formula shows can deliver, it is the
one that did, and the formula shows the number that it delivered (`formula_operands`); the one
exception is a relay without a number, whose switch delivers 0. Both texts of a formula are one text of the
operator of the node, around the labels of the operands or around their values (`Node.formulaText`).

`unpowered_output_shown` is a sum for which the two choices differ.
-/
set_option autoImplicit false

namespace Dataflow

/-! ## Which connection a formula shows -/

namespace Program

variable {p q : Program} {id pin : String} {c : Connection}

theorem shownConnection?_spec (h : p.shownConnection? id pin = some c) :
    c ∈ p.incoming id ∧ c.targetInput = pin ∧ p.hasNode c.source := by
  have hmem := List.mem_of_getLast? h
  simpa using hmem

/-- The operand at a pin: what the connection that is shown leads from, or a placeholder. -/
theorem operand_eq (p : Program) (id pin : String) :
    p.operand id pin =
      match p.shownConnection? id pin with
      | none => ⟨"unset_" ++ pin, "unset_" ++ pin⟩
      | some c => ⟨p.labelOf c.source, p.shownValue c.source⟩ := by
  rw [operand, find?_feeders]
  cases hshown : p.shownConnection? id pin with
  | none => rfl
  | some c =>
    obtain ⟨s, hs⟩ := exists_node? (shownConnection?_spec hshown).2.2
    simp only [Option.bind_some, hs, Option.map_some, (mem_of_node? hs).2]

/-- The connections that deliver are among those whose source exists. -/
theorem decidingConnection?_eq (p : Program) (id pin : String) :
    p.decidingConnection? id pin =
      (((p.incoming id).filter fun c => c.targetInput == pin && p.hasNode c.source).filter
        p.delivers).getLast? := by
  rw [decidingConnection?, List.filter_filter]
  congr 1
  refine List.filter_congr fun c _ => ?_
  cases hdelivers : p.delivers c with
  | false => simp
  | true => simp [hasNode_of_delivers hdelivers]

/-- The connection that is shown decides the input when it can deliver. -/
theorem decidingConnection?_of_shown (h : p.shownConnection? id pin = some c)
    (hdelivers : p.delivers c) : p.decidingConnection? id pin = some c := by
  rw [decidingConnection?_eq]
  exact getLast?_filter_of_getLast? h hdelivers

theorem decidingConnection?_of_not_shown (h : p.shownConnection? id pin = none) :
    p.decidingConnection? id pin = none := by
  have hempty := List.getLast?_eq_none_iff.mp h
  rw [decidingConnection?_eq, hempty]
  rfl

theorem SameGraph.shownConnection?_eq (h : p.SameGraph q) :
    q.shownConnection? id pin = p.shownConnection? id pin := by
  have hnode : ∀ i, q.hasNode i = p.hasNode i := fun i => by
    rw [Bool.eq_iff_iff, hasNode_iff_mem, hasNode_iff_mem, h.2]
  simp only [shownConnection?, incoming, h.1, hnode]

/-! ## Labels -/

theorem labelsAfter_ids (earlier : List String) (nodes : List Node) :
    (labelsAfter earlier nodes).map (·.1) = nodes.map (·.id) := by
  induction nodes generalizing earlier with
  | nil => rfl
  | cons n rest ih => simp only [labelsAfter, List.map_cons, ih]

/-- A label is the base label of its node, with something added at the end or not. -/
theorem exists_of_mem_labelsAfter {earlier : List String} {nodes : List Node} {entry : String × String}
    (h : entry ∈ labelsAfter earlier nodes) :
    ∃ n ∈ nodes, n.id = entry.1 ∧ ∃ added, entry.2 = n.baseLabel ++ added := by
  induction nodes generalizing earlier with
  | nil => simp [labelsAfter] at h
  | cons n rest ih =>
    rcases List.mem_cons.mp h with rfl | hrest
    · refine ⟨n, List.mem_cons_self, rfl, ?_⟩
      dsimp only
      split
      · exact ⟨"", String.append_empty.symm⟩
      · exact ⟨_, String.append_assoc⟩
    · obtain ⟨m, hm, hid, hlabel⟩ := ih hrest
      exact ⟨m, List.mem_cons_of_mem _ hm, hid, hlabel⟩

/-- The label of a node has the colon that stands between type and name. -/
theorem colon_mem_labelOf (h : p.hasNode id) : ':' ∈ (p.labelOf id).toList := by
  have hid : id ∈ p.labels.map (·.1) := by
    rw [labels, labelsAfter_ids]
    exact hasNode_iff_mem.mp h
  obtain ⟨entry, hentry, rfl⟩ := List.mem_map.mp hid
  cases hfind : p.labels.find? (·.1 == entry.1) with
  | none => exact absurd (List.find?_eq_none.mp hfind entry hentry) (by simp)
  | some found =>
    obtain ⟨n, -, -, added, hlabel⟩ := exists_of_mem_labelsAfter (List.mem_of_find?_eq_some hfind)
    rw [labelOf, hfind, Option.map_some, Option.getD_some, hlabel]
    simp [NodeDefinition.baseLabel]

/-- No label is the placeholder of an input pin. -/
theorem labelOf_ne_unset {k : Kind} {pin : Pin} (hpin : pin ∈ k.inputs) (h : p.hasNode id) :
    p.labelOf id ≠ "unset_" ++ pin.name := by
  have hname : pin.name = "num1" ∨ pin.name = "num2" := by
    cases k <;> simp [Kind.inputs] at hpin <;> rcases hpin with rfl | rfl <;> simp
  intro heq
  have hcolon := colon_mem_labelOf h
  rw [heq] at hcolon
  rcases hname with hname | hname <;> rw [hname] at hcolon <;> exact absurd hcolon (by decide)

theorem labelsAfter_congr {nodes nodes' : List Node} {earlier : List String}
    (h : List.Forall₂ (fun n m : Node => m.id = n.id ∧ m.baseLabel = n.baseLabel) nodes nodes') :
    labelsAfter earlier nodes' = labelsAfter earlier nodes := by
  induction h generalizing earlier with
  | nil => rfl
  | cons hnm _ ih => simp only [labelsAfter, hnm.1, hnm.2, ih]

end Program

/-! ## What a tick leaves for formulas -/

namespace Engine

variable {e : Engine} {p q : Program} {tick : String} {outcome : Evaluation}

theorem Records.labelOf_eq (h : e.Records tick outcome p q) (id : String) :
    q.labelOf id = p.labelOf id := by
  have hlabels : q.labels = p.labels := by
    refine Program.labelsAfter_congr (h.nodes.imp fun n m hnm => ?_)
    rw [hnm.kept]
    exact ⟨rfl, rfl⟩
  rw [Program.labelOf, Program.labelOf, hlabels]

theorem Records.exists_node (h : e.Records tick outcome p q) {n : Node} (hn : n ∈ p.nodes) :
    ∃ m ∈ q.nodes, e.RecordsNode tick outcome n m := by
  obtain ⟨i, hi⟩ := List.mem_iff_getElem?.mp hn
  obtain ⟨hlt, rfl⟩ := List.getElem?_eq_some_iff.mp hi
  have hlt' : i < q.nodes.length := h.nodes.length_eq ▸ hlt
  exact ⟨_, List.getElem_mem hlt', h.nodes.get hlt hlt'⟩

/-- After a tick the value shown for a node is the one that the tick recorded. -/
theorem Records.shownValue_eq (h : e.Records tick outcome p q) {n : Node} (hn : n ∈ p.nodes) :
    ∃ x, outcome.value? n.id = some x ∧ q.shownValue n.id = Number.text x := by
  obtain ⟨m, hm, hnm⟩ := h.exists_node hn
  obtain ⟨x, hx, hentry, -⟩ := hnm.value
  have hid : m.id = n.id := by rw [hnm.kept]
  refine ⟨x, hx, ?_⟩
  rw [Program.shownValue, Program.currentValue?, Program.currentTick?, h.log,
    List.getLast?_concat, ← hid, Program.node?_of_mem hm]
  simp [NodeDefinition.valueAt?, hentry]

end Engine

/-! ## What the pass delivers -/

namespace Node

/-- A relay shows its switch as a number, or shows no number and is off. -/
theorem relayState_cases (inputs : Slots) :
    (relayState inputs).1 = Number.ofBool (relayState inputs).2 ∨
      relayState inputs = (Number.nan, false) := by
  unfold relayState
  split
  · split
    · exact .inr rfl
    · exact .inl rfl
  · exact .inr rfl

/-- An output is offered to a number input as the number that its node shows, except that the switch
of a relay that shows no number offers 0. -/
theorem offered_number (n : Node) (inputs : Slots) (ctx : Context) {output : String}
    (h : n.kind.hasOutput output) :
    ∃ v x shown, (n.outputs inputs ctx).get? output = some v ∧
      v.coerce? .number = some (.number x) ∧ (n.outputs inputs ctx).number? "value" = some shown ∧
      (x = shown ∨ n.kind = .relay ∧ output = "active" ∧ shown = Number.nan ∧ x = Number.ofBool false) := by
  cases hkind : n.kind with
  | relay =>
    have houtput : "value" = output ∨ "active" = output := by
      simpa [hkind, Kind.hasOutput, Kind.outputs] using h
    simp only [outputs, hkind]
    rcases houtput with rfl | rfl
    · exact ⟨.number _, _, _, rfl, rfl, rfl, .inl rfl⟩
    · refine ⟨.boolean _, _, _, rfl, rfl, rfl, ?_⟩
      rcases relayState_cases inputs with hnumber | hnone
      · exact .inl hnumber.symm
      · rw [hnone]
        exact .inr ⟨trivial, rfl, rfl, rfl⟩
  | number | generator | timer | sensor | math | logic | transform | control =>
    have houtput : "value" = output := by
      simpa [hkind, Kind.hasOutput, Kind.outputs] using h
    simp only [outputs, hkind, ← houtput]
    exact ⟨.number _, _, _, rfl, rfl, rfl, .inl rfl⟩

end Node

namespace Program

variable {p q : Program} {ctx : Context} {outcome : Evaluation}

/-- What the input pin of a node holds is what the connection that decides it offers. -/
theorem get?_inputsUnder (p : Program) (out : String → Option Slots) {n : Node} {pin : Pin}
    (hpin : pin ∈ n.kind.inputs) :
    (p.inputsUnder out n).get? pin.name
      = (p.decidingConnection? n.id pin.name).bind (offered out pin.type) := by
  have hfind : n.kind.inputs.find? (fun other => other.name == pin.name) = some pin := by
    cases hkind : n.kind <;> simp [hkind, Kind.inputs] at hpin ⊢ <;> rcases hpin with rfl | rfl <;>
      simp
  rw [Slots.get?, Slots.slot?, inputsUnder, List.find?_map]
  have hcomp : ((fun s : Slot => s.pin.name == pin.name) ∘ fun other : Pin =>
      (⟨other, (p.decidingConnection? n.id other.name).bind (offered out other.type)⟩ : Slot))
      = fun other => other.name == pin.name := rfl
  rw [hcomp, hfind]
  rfl

/-- A connection that delivers to a number input brings the number that its source shows, except for
the switch of a relay that shows no number. -/
theorem offered_of_delivers (h : p.evaluateAll ctx = .ok outcome) {c : Connection}
    (hdelivers : p.delivers c) :
    ∃ source x shown, p.node? c.source = some source ∧
      offered outcome.outputs? .number c = some (.number x) ∧ outcome.value? c.source = some shown ∧
      (x = shown ∨ source.kind = .relay ∧ c.sourceOutput = "active" ∧ shown = Number.nan ∧
        x = Number.ofBool false) := by
  obtain ⟨source, hsource, houtput⟩ := (Option.any_eq_true _ _).mp hdelivers
  obtain ⟨hmem, hid⟩ := mem_of_node? hsource
  have hout := ((selects_all p).isSolution h).outputs source hmem (hasNode_of_mem hmem)
  rw [hid] at hout
  obtain ⟨v, x, shown, hv, hx, hshown, hcase⟩ :=
    source.offered_number (p.inputsUnder outcome.outputs? source) ctx houtput
  refine ⟨source, x, shown, hsource, ?_, ?_, hcase⟩
  · rw [offered, hout, Option.bind_some, hv, Option.bind_some, hx]
  · rw [Evaluation.value?, hout, Option.bind_some, hshown]

end Program

/-! ## The texts of a formula -/

/-- An operator node: one that has a formula. -/
def Kind.IsOperator (k : Kind) : Prop :=
  k = .math ∨ k = .logic ∨ k = .transform

theorem Kind.type_of_mem_inputs {k : Kind} {pin : Pin} (h : pin ∈ k.inputs) : pin.type = .number := by
  cases k <;> simp [inputs] at h <;> rcases h with rfl | rfl <;> rfl

/-- What a transform writes before its operand and after it. -/
def Transform.around : Transform → String × String
  | absoluteValue => ("|", "| =")
  | negation => ("-(", ") =")
  | not => ("!", " ⇒")
  | round => ("round(", ") =")
  | floor => ("floor(", ") =")
  | ceil => ("ceil(", ") =")
  | ramp => ("", " →")

theorem Transform.sentence_eq (op : Transform) (operand : String) :
    op.sentence operand = op.around.1 ++ operand ++ op.around.2 := by
  cases op with
  | ramp => rw [around, String.empty_append]; rfl
  | absoluteValue | negation | not | round | floor | ceil => rfl

/-- The text that the operator of a node makes of the texts of its operands and of its result. -/
def Node.formulaText (n : Node) (operand : String → String) (result : String) : String :=
  match n.kind with
  | .math =>
    operand "num1" ++ " " ++ (n.arithmetic?.map Arithmetic.symbol).getD "?" ++ " " ++ operand "num2"
      ++ " = " ++ result
  | .logic =>
    operand "num1" ++ " " ++ (n.logic?.map Logic.symbol).getD "?" ++ " " ++ operand "num2" ++ " ⇒ "
      ++ result
  | .transform =>
    let around := (n.transform?.map Transform.around).getD ("unknownTransform(", ") =")
    around.1 ++ operand "num1" ++ around.2 ++ " " ++ result
  | _ => ""

namespace Program

theorem binaryFormula_eq (p : Program) (id symbol arrow : String) : p.binaryFormula id symbol arrow =
    ⟨(p.operand id "num1").label ++ " " ++ symbol ++ " " ++ (p.operand id "num2").label
        ++ (" " ++ arrow ++ " ") ++ "nodeValue",
      (p.operand id "num1").value ++ " " ++ symbol ++ " " ++ (p.operand id "num2").value
        ++ (" " ++ arrow ++ " ") ++ p.shownValue id⟩ := by
  simp only [binaryFormula, String.intercalate_cons_cons, String.intercalate_singleton,
    String.append_assoc]

/-- **The two texts of a formula** are one text, around the labels of the operands and around their
values. -/
theorem formulaOf_eq (p : Program) {n : Node} (h : n.kind.IsOperator) : p.formulaOf n = some
    ⟨n.formulaText (fun pin => (p.operand n.id pin).label) "nodeValue",
      n.formulaText (fun pin => (p.operand n.id pin).value) (p.shownValue n.id)⟩ := by
  rcases h with hkind | hkind | hkind
  · simp only [formulaOf, Node.formulaText, hkind, binaryFormula_eq]
    rfl
  · simp only [formulaOf, Node.formulaText, hkind, binaryFormula_eq]
    rfl
  · have hresult : " nodeValue" = " " ++ "nodeValue" := by rfl
    simp only [formulaOf, Node.formulaText, hkind, unaryFormula, hresult]
    cases n.transform? with
    | none => simp only [Option.map_none, Option.getD_none, String.append_assoc]
    | some op =>
      simp only [Transform.sentence_eq, Option.map_some, Option.getD_some, String.append_assoc]

end Program

/-! ## Formulas after a tick -/

namespace Engine

variable {e : Engine} {p q : Program} {tick : String} {ctx : Context} {outcome : Evaluation}

/-- After a tick every operator node has a formula, which ends in the value that the tick recorded. -/
theorem Records.formula?_eq (h : e.Records tick outcome p q) {n : Node} (hn : n ∈ p.nodes)
    (hkind : n.kind.IsOperator) :
    ∃ shown, outcome.value? n.id = some shown ∧ q.formula? n.id = some
      ⟨n.formulaText (fun pin => (q.operand n.id pin).label) "nodeValue",
        n.formulaText (fun pin => (q.operand n.id pin).value) (Number.text shown)⟩ := by
  obtain ⟨m, hm, hnm⟩ := h.exists_node hn
  obtain ⟨shown, hshown, htext⟩ := h.shownValue_eq hn
  refine ⟨shown, hshown, ?_⟩
  have hid : m.id = n.id := by rw [hnm.kept]
  have hsame : m.kind = n.kind := by rw [hnm.kept]
  -- The operator is a property of the node, and a tick keeps those.
  have hoperator : m.formulaText = n.formulaText := by
    rw [hnm.kept]
    rfl
  have hformula : q.formula? n.id = q.formulaOf m := by
    rw [Program.formula?, ← hid, Program.node?_of_mem hm, Option.bind_some]
  rw [hformula, q.formulaOf_eq (hsame ▸ hkind), hoperator, hid, htext]

/-- The operand `a` shows the connection `c`, of which the pass made `delivered`. It has the label and
the recorded value of the source; if the source has the named output, the connection is the one that
decided the input, and the number delivered is the one shown, unless it comes from the switch of a
relay that shows no number. -/
structure ShowsConnection (p : Program) (outcome : Evaluation) (n : Node) (pin : Pin) (c : Connection)
    (a : Operand) (delivered : Option Float) : Prop where
  label : a.label = p.labelOf c.source
  value : ∃ shown, outcome.value? c.source = some shown ∧ a.value = Number.text shown
  delivered : p.delivers c → p.decidingConnection? n.id pin.name = some c ∧
    ∃ x, delivered = some x ∧
      (a.value = Number.text x ∨ c.sourceOutput = "active" ∧ a.value = "NaN" ∧ x = Number.ofBool false)

theorem showsConnection (h : e.Records tick outcome p q) (hpass : p.evaluateAll ctx = .ok outcome)
    {n : Node} {pin : Pin} {c : Connection} (hpin : pin ∈ n.kind.inputs)
    (hshown : p.shownConnection? n.id pin.name = some c) :
    ShowsConnection p outcome n pin c ⟨q.labelOf c.source, q.shownValue c.source⟩
      ((p.inputsUnder outcome.outputs? n).number? pin.name) where
  label := h.labelOf_eq c.source
  value := by
    obtain ⟨s, hs⟩ := Program.exists_node? (Program.shownConnection?_spec hshown).2.2
    obtain ⟨hmem, hid⟩ := Program.mem_of_node? hs
    obtain ⟨x, hx, htext⟩ := h.shownValue_eq hmem
    exact ⟨x, hid ▸ hx, hid ▸ htext⟩
  delivered := fun hdelivers => by
    have hdecides := Program.decidingConnection?_of_shown hshown hdelivers
    obtain ⟨s, x, shown, hs, hoffered, hvalue, hcase⟩ := Program.offered_of_delivers hpass hdelivers
    obtain ⟨hmem, hid⟩ := Program.mem_of_node? hs
    obtain ⟨y, hy, htext⟩ := h.shownValue_eq hmem
    rw [hid] at hy htext
    obtain rfl : shown = y := Option.some.inj (hvalue.symm.trans hy)
    have htype : pin.type = .number := Kind.type_of_mem_inputs hpin
    refine ⟨hdecides, x, ?_, ?_⟩
    · rw [Slots.number?, Program.get?_inputsUnder p _ hpin, hdecides, Option.bind_some, htype, hoffered]
      rfl
    · rcases hcase with rfl | ⟨-, houtput, rfl, rfl⟩
      · exact .inl htext
      · exact .inr ⟨houtput, htext.trans (by decide), rfl⟩

/-- **The operand that a formula shows after a tick is the number that the pass delivered**, as far as
the connection that is shown can deliver. The two texts of a formula are what the operator of the node
writes around its operands and, at the end, the value that the node recorded. The operand at a pin is
the placeholder of the pin exactly when no connection into it has an existing source, and then the
input was not set. Otherwise it shows the last such connection. -/
theorem formula_operands (e : Engine) (p : Program) (tick : String) (ctx : Context)
    (outcome : Evaluation) (hretention : e.tickRetention = none)
    (hok : (e.advance p tick ctx).1 = .ok outcome) :
    let q := (e.advance p tick ctx).2
    ∀ n ∈ p.nodes, n.kind.IsOperator →
      (∃ shown, outcome.value? n.id = some shown ∧ q.formula? n.id = some
        ⟨n.formulaText (fun pin => (q.operand n.id pin).label) "nodeValue",
          n.formulaText (fun pin => (q.operand n.id pin).value) (Number.text shown)⟩) ∧
      ∃ pre v post, outcome.visits = pre ++ v :: post ∧ v = p.visit ctx ⟨pre⟩ n ∧
        ∀ pin ∈ n.kind.inputs,
          (q.operand n.id pin.name = ⟨"unset_" ++ pin.name, "unset_" ++ pin.name⟩ ↔
            p.shownConnection? n.id pin.name = none) ∧
          (p.shownConnection? n.id pin.name = none →
            (p.inputsOf ⟨pre⟩ n).1.number? pin.name = none) ∧
          ∀ c, p.shownConnection? n.id pin.name = some c →
            ShowsConnection p outcome n pin c (q.operand n.id pin.name)
              ((p.inputsOf ⟨pre⟩ n).1.number? pin.name) := by
  intro q n hn hkind
  obtain ⟨hpass, hrecords⟩ := records_of_advance hretention hok
  refine ⟨hrecords.formula?_eq hn hkind, ?_⟩
  have hselects := Program.selects_all p
  obtain ⟨v, hv, hid⟩ := Evaluation.mem_order.mp
    (((hselects.schedule hpass).mem_iff n.id).mpr (Program.hasNode_of_mem hn))
  obtain ⟨pre, post, hsplit⟩ := List.append_of_mem hv
  obtain ⟨m, hm, hmid, hvisit, -⟩ := hselects.visit_split hpass hsplit
  obtain rfl : m = n := List.inj_on_of_nodup_map p.nodes_nodup hm hn (hmid.trans hid)
  refine ⟨pre, v, post, hsplit, hvisit, fun pin hpin => ?_⟩
  rw [hselects.inputsOf_split hpass hn hsplit hid, Program.operand_eq,
    (Program.sameGraph_advance e p tick ctx).shownConnection?_eq]
  cases hshown : p.shownConnection? m.id pin.name with
  | none =>
    refine ⟨iff_of_true rfl rfl, fun _ => ?_, fun c hc => absurd hc (by simp)⟩
    rw [Slots.number?, Program.get?_inputsUnder p _ hpin, Program.decidingConnection?_of_not_shown hshown]
    rfl
  | some c =>
    refine ⟨iff_of_false (fun heq => ?_) (by simp), fun hnone => absurd hnone (by simp), ?_⟩
    · have hlabel := congrArg Operand.label heq
      dsimp only at hlabel
      rw [hrecords.labelOf_eq] at hlabel
      exact Program.labelOf_ne_unset hpin (Program.shownConnection?_spec hshown).2.2 hlabel
    · rintro c' ⟨rfl⟩
      exact showsConnection hrecords hpass hpin hshown

end Engine

/-- Two numbers and their sum, which is compared and negated. The second number feeds the sum at the
connection between those of the first number and of a missing node. -/
def Program.calculator : Program where
  id := none
  nodes :=
    [⟨(NodeDefinition.ofType "a" "Number").withProperty "value" (.number (.integer 2)), .number⟩,
      ⟨(NodeDefinition.ofType "b" "Number").withProperty "value" (.number (.integer 3)), .number⟩,
      ⟨(NodeDefinition.ofType "s" "Math").withProperty "mathOperator" (.string "Add"), .math⟩,
      ⟨(NodeDefinition.ofType "l" "Logic").withProperty "logicOperator" (.string "Greater Than"),
        .logic⟩,
      ⟨(NodeDefinition.ofType "t" "Transform").withProperty "transformOperator" (.string "Negation"),
        .transform⟩]
  connections :=
    [⟨"1", "a", "value", "s", "num1"⟩, ⟨"2", "a", "value", "s", "num2"⟩,
      ⟨"3", "b", "value", "s", "num2"⟩, ⟨"4", "x", "value", "s", "num2"⟩,
      ⟨"5", "s", "value", "l", "num1"⟩, ⟨"6", "s", "value", "t", "num1"⟩]
  recentTicks := []
  nodes_nodup := by decide
  connections_nodup := by decide

/-- The formulas of the sum, of the comparison and of the negation after a tick. The second operand of
the sum is shown as what the pass delivered to it: the value of the number at the last connection from
a node that exists. -/
theorem Engine.calculator_formula_operands :
    let q := (({} : Engine).advance Program.calculator "1" ⟨0, ∅⟩).2
    q.formula? "s" = some ⟨"Number:Number + Number:Number#1 = nodeValue", "2 + 3 = 5"⟩ ∧
      q.formula? "l" = some ⟨"Math:Math > unset_num2 ⇒ nodeValue", "5 > unset_num2 ⇒ NaN"⟩ ∧
      q.formula? "t" = some ⟨"-(Math:Math) = nodeValue", "-(5) = -5"⟩ ∧
      Program.calculator.shownConnection? "s" "num2" = some ⟨"3", "b", "value", "s", "num2"⟩ ∧
      ∃ sum pre x, Program.calculator.node? "s" = some sum ∧
        (Program.calculator.inputsOf ⟨pre⟩ sum).1.number? "num2" = some x ∧
        q.operand "s" "num2" = ⟨Program.calculator.labelOf "b", Number.text x⟩ := by
  intro q
  have hok : (({} : Engine).advance Program.calculator "1" ⟨0, ∅⟩).1
      = .ok (Program.calculator.visitAll ⟨0, ∅⟩
        (["a", "b", "s", "l", "t"].filterMap Program.calculator.node?)) := by
    rfl
  have hformulas := formula_operands {} Program.calculator "1" ⟨0, ∅⟩ _ rfl hok
  have hs : Program.calculator.node? "s" = some _ := rfl
  have hl : Program.calculator.node? "l" = some _ := rfl
  have ht : Program.calculator.node? "t" = some _ := rfl
  obtain ⟨⟨sum, hsum, hsumText⟩, pre, v, post, -, -, hpins⟩ :=
    hformulas _ (Program.mem_of_node? hs).1 (.inl rfl)
  obtain ⟨⟨greater, hgreater, hgreaterText⟩, -⟩ :=
    hformulas _ (Program.mem_of_node? hl).1 (.inr (.inl rfl))
  obtain ⟨⟨negated, hnegated, hnegatedText⟩, -⟩ :=
    hformulas _ (Program.mem_of_node? ht).1 (.inr (.inr rfl))
  -- The three numbers are now those that the pass computes: 5, none and -5.
  cases hsum
  cases hgreater
  cases hnegated
  have hshown : Program.calculator.shownConnection? "s" "num2"
      = some ⟨"3", "b", "value", "s", "num2"⟩ := by
    decide
  obtain ⟨-, -, hconnection⟩ := hpins ⟨"num2", .number⟩ (by simp [Kind.inputs])
  obtain ⟨hlabel, -, hdelivered⟩ := hconnection _ hshown
  obtain ⟨-, x, hx, hvalue | ⟨houtput, -⟩⟩ := hdelivered (by decide)
  · exact ⟨hsumText.trans rfl, hgreaterText.trans rfl, hnegatedText.trans rfl, hshown, _, pre, x, hs, hx,
      congrArg₂ Operand.mk hlabel hvalue⟩
  · exact absurd houtput (by decide)

/-- A sum with one connection, from an output that its source does not have. -/
def Program.unpowered : Program where
  id := none
  nodes := [⟨.ofType "b" "Number", .number⟩, ⟨.ofType "s" "Math", .math⟩]
  connections := [⟨"c", "b", "bogus", "s", "num1"⟩]
  recentTicks := []
  nodes_nodup := by decide
  connections_nodup := by decide

/-- **The formula of a sum shows an operand that the pass never delivered.** A tick visits the number,
then the sum with its first input not set, and the operand is the number at the other end of the
connection. -/
theorem Engine.unpowered_output_shown :
    let sum : Node := ⟨.ofType "s" "Math", .math⟩
    let q := (({} : Engine).advance Program.unpowered "1" ⟨0, ∅⟩).2
    ∃ first, (({} : Engine).advance Program.unpowered "1" ⟨0, ∅⟩).1
        = .ok ⟨[first, Program.unpowered.visit ⟨0, ∅⟩ ⟨[first]⟩ sum]⟩ ∧
      (Program.unpowered.inputsOf ⟨[first]⟩ sum).1.number? "num1" = none ∧
      q.operand "s" "num1" = ⟨"Number:Number", "0"⟩ ∧
      q.formula? "s" = some ⟨"Number:Number ? unset_num2 = nodeValue", "0 ? unset_num2 = NaN"⟩ := by
  exact ⟨Program.unpowered.visit ⟨0, ∅⟩ ⟨[]⟩ ⟨.ofType "b" "Number", .number⟩, rfl, rfl, rfl, rfl⟩

end Dataflow
