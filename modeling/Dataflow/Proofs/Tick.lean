import Mathlib.Data.List.Forall2
import Dataflow.Engine
import Dataflow.Proofs.Equations
/-!
# Ticks

Main statement: a tick that cannot run changes nothing, and one that runs adds exactly the outcome of
the pass over the program as it was before (`advance_records`). Which of the two it is depends on the
connections alone, and no tick changes those, so the ticks of a program all run or all fail.

`Engine.RecordsNode` lists what a tick writes into one node, with everything else in it kept, and
`Engine.Records` what it writes into a program.
-/
set_option autoImplicit false

namespace Dataflow

/-! ## Recent values -/

namespace RecentValues

theorem samples_push_eq_rtake (r : RecentValues) (x : Float) :
    (r.push x).samples = (r.samples ++ [x]).rtake r.capacity := by
  rw [samples_push, List.rtake, List.length_append, List.length_singleton]

theorem last?_setCapacity (r : RecentValues) (capacity : Nat) :
    (r.setCapacity capacity).last? = r.last? := by
  rw [last?, setCapacity, last?, List.getLast?_drop]
  split
  · next h =>
    have hempty : r.samples = [] := List.length_eq_zero_iff.mp (by omega)
    rw [hempty]
    rfl
  · rfl

end RecentValues

namespace Engine

theorem capacity_sampled (e : Engine) (r : RecentValues) (x : Float) :
    (e.sampled r x).capacity = e.maxNodeValues := by
  have hpos := e.maxNodeValues_pos
  simp only [sampled, RecentValues.push]
  split
  · assumption
  · simp only [RecentValues.setCapacity]
    omega

/-- Resizing the buffer and then pushing keeps the newest samples that fit. -/
theorem samples_sampled (e : Engine) (r : RecentValues) (x : Float) :
    (e.sampled r x).samples = (r.samples ++ [x]).rtake e.maxNodeValues := by
  have hpos := e.maxNodeValues_pos
  simp only [sampled]
  split
  · rename_i hcapacity
    rw [RecentValues.samples_push_eq_rtake, hcapacity]
  · have hmax : max e.maxNodeValues 1 = e.maxNodeValues := by omega
    rw [RecentValues.samples_push_eq_rtake]
    simp only [RecentValues.setCapacity, hmax]
    exact rtake_concat_rtake _ _ _

theorem last?_sampled (e : Engine) (r : RecentValues) (x : Float) :
    (e.sampled r x).last? = some x := by
  rw [sampled, RecentValues.last?, RecentValues.push, List.getLast?_concat]

end Engine

/-! ## What a tick writes -/

namespace Engine

/-- The node `m` is `n` after a tick with the given outcome: the value that the node shows is in the
entry of the tick and among the recent values, what it holds is kept, and nothing else changed. -/
structure RecordsNode (e : Engine) (tick : String) (outcome : Evaluation) (n m : Node) : Prop where
  kept : m = { n with data := { n.data with
    tickEntries := m.data.tickEntries
    recentValues := m.data.recentValues
    heldValue := m.data.heldValue } }
  value : ∃ x, outcome.value? n.id = some x ∧
    m.data.tickEntries[tick]? = some ⟨some (Number.text x), none⟩ ∧
    m.data.recentValues.samples = (n.data.recentValues.samples ++ [x]).rtake e.maxNodeValues
  otherEntries : ∀ other, other ≠ tick → m.data.tickEntries[other]? = n.data.tickEntries[other]?
  capacity : m.data.recentValues.capacity = e.maxNodeValues
  held : m.data.heldValue = outcome.held? n.id
  held_none : n.kind ≠ .control → m.data.heldValue = none

/-- The program `q` is `p` after a tick with the given outcome and nothing dropped. -/
structure Records (e : Engine) (tick : String) (outcome : Evaluation) (p q : Program) : Prop where
  id : q.id = p.id
  connections : q.connections = p.connections
  log : q.recentTicks = p.recentTicks ++ [tick]
  /-- The nodes are those from before, in their order. -/
  nodes : List.Forall₂ (e.RecordsNode tick outcome) p.nodes q.nodes

end Engine

/-- The node with other entries, recent values and held value. -/
def Node.withRecords (n : Node) (entries : TickEntries) (r : RecentValues) (held : Option Float) :
    Node :=
  { n with data := { n.data with tickEntries := entries, recentValues := r, heldValue := held } }

namespace Node

variable (n : Node) (entries : TickEntries) (r : RecentValues) (held : Option Float)

@[simp] theorem id_withRecords : (n.withRecords entries r held).id = n.id := rfl

@[simp] theorem kind_withRecords : (n.withRecords entries r held).kind = n.kind := rfl

@[simp] theorem hold?_withRecords : (n.withRecords entries r held).hold? = n.hold? := rfl

@[simp] theorem previousValue?_withRecords :
    (n.withRecords entries r held).previousValue? = r.last? := rfl

@[simp] theorem heldValue_withRecords : (n.withRecords entries r held).data.heldValue = held := rfl

end Node

theorem Node.gateStep_of_hold {n : Node} {op : Hold} (hop : n.hold? = some op) (inputs : Slots) :
    n.gateStep inputs
      = op.step (gateOn inputs) (signal inputs) n.data.heldValue n.previousValue? := by
  rw [gateStep, hop]

/-- Every kind shows a number under `value`. -/
theorem Kind.hasOutput_value (k : Kind) : k.hasOutput "value" := by
  cases k <;> decide

namespace Program

variable {p q : Program} {ctx : Context} {outcome : Evaluation}

/-- After a pass over all nodes every node has a value. -/
theorem exists_value?_of_evaluateAll (h : p.evaluateAll ctx = .ok outcome) {n : Node}
    (hn : n ∈ p.nodes) : ∃ x, outcome.value? n.id = some x := by
  have hout := ((selects_all p).isSolution h).outputs n hn (hasNode_of_mem hn)
  have hname : (n.outputs (p.inputsUnder outcome.outputs? n) ctx).pins.any (·.name == "value") := by
    rw [Node.pins_outputs]
    exact n.kind.hasOutput_value
  obtain ⟨v, hv, -⟩ := (n.filled_outputs _ _).get? hname
  exact ⟨v.toNumber, by rw [Evaluation.value?, hout, Option.bind_some, Slots.number?, hv]; rfl⟩

/-- Only control nodes hold something after a pass. -/
theorem held?_of_evaluateAll (h : p.evaluateAll ctx = .ok outcome) {n : Node} (hn : n ∈ p.nodes)
    (hkind : n.kind ≠ .control) : outcome.held? n.id = none := by
  rw [((selects_all p).isSolution h).held n hn (hasNode_of_mem hn), Node.held?]
  split
  · rename_i hcontrol
    exact absurd hcontrol hkind
  · rfl

/-- After a pass over all nodes a control node shows and holds what its gate makes of its inputs. -/
theorem gate_of_evaluateAll (h : p.evaluateAll ctx = .ok outcome) {n : Node} (hn : n ∈ p.nodes)
    (hkind : n.kind = .control) :
    outcome.value? n.id = some (n.gateStep (p.inputsUnder outcome.outputs? n)).1 ∧
      outcome.held? n.id = (n.gateStep (p.inputsUnder outcome.outputs? n)).2 := by
  have hsolution := (selects_all p).isSolution h
  have hout := hsolution.outputs n hn (hasNode_of_mem hn)
  have hheld := hsolution.held n hn (hasNode_of_mem hn)
  rw [Node.outputs, hkind] at hout
  rw [Node.held?, hkind] at hheld
  refine ⟨?_, hheld⟩
  rw [Evaluation.value?, hout]
  rfl

/-! ## The graph stays -/

/-- The two programs have the same connections between the same ids. -/
def SameGraph (p q : Program) : Prop :=
  q.connections = p.connections ∧ q.nodes.map (·.id) = p.nodes.map (·.id)

theorem SameGraph.trans {r : Program} (hpq : p.SameGraph q) (hqr : q.SameGraph r) : p.SameGraph r :=
  ⟨hqr.1.trans hpq.1, hqr.2.trans hpq.2⟩

theorem SameGraph.acyclicOn_iff (h : p.SameGraph q) :
    q.AcyclicOn (q.hasNode ·) ↔ p.AcyclicOn (p.hasNode ·) := by
  have hnode : ∀ id, (q.hasNode id : Prop) = p.hasNode id := fun id => by
    rw [eq_iff_iff, hasNode_iff_mem, hasNode_iff_mem, h.2]
  have hfeeds : q.FeedsWithin (q.hasNode ·) = p.FeedsWithin (p.hasNode ·) := by
    funext a b
    simp only [FeedsWithin, Feeds, hnode, h.1]
  simp only [AcyclicOn, hfeeds]

theorem SameGraph.order?_eq (h : p.SameGraph q) :
    q.order? (q.nodes.map (·.id)) = p.order? (p.nodes.map (·.id)) := by
  rw [order?, order?, lastRelease, lastRelease, links, links, h.1, h.2]

theorem sameGraph_mapData (p : Program) (f : Node → NodeData) : p.SameGraph (p.mapData f) :=
  ⟨rfl, by simp only [mapData, List.map_map, Function.comp_def]⟩

theorem sameGraph_withRecentTicks (p : Program) (ticks : List String) :
    p.SameGraph (p.withRecentTicks ticks) :=
  ⟨rfl, rfl⟩

theorem sameGraph_record (e : Engine) (p : Program) (tick : String) (outcome : Evaluation) :
    p.SameGraph (e.record p tick outcome) :=
  (sameGraph_mapData p _).trans (sameGraph_withRecentTicks _ _)

theorem sameGraph_retain (p : Program) (keep : Nat) : p.SameGraph (p.retain keep) :=
  (sameGraph_mapData p _).trans (sameGraph_withRecentTicks _ _)

theorem sameGraph_advance (e : Engine) (p : Program) (tick : String) (ctx : Context) :
    p.SameGraph (e.advance p tick ctx).2 := by
  unfold Engine.advance
  split
  · exact ⟨rfl, rfl⟩
  · dsimp only
    split
    · exact (sameGraph_record e p tick _).trans (sameGraph_retain _ _)
    · exact sameGraph_record e p tick _

/-- Some engine leads from `p` to `q` by a tick, whether the tick ran or failed. -/
def TicksTo (p q : Program) : Prop :=
  ∃ (e : Engine) (tick : String) (ctx : Context), q = (e.advance p tick ctx).2

theorem sameGraph_of_ticksTo (h : Relation.ReflTransGen TicksTo p q) : p.SameGraph q := by
  induction h with
  | refl => exact ⟨rfl, rfl⟩
  | tail _ hstep ih =>
    obtain ⟨e, tick, ctx, rfl⟩ := hstep
    exact ih.trans (sameGraph_advance e _ tick ctx)

end Program

namespace Engine

variable {p q : Program} {ctx : Context} {outcome : Evaluation}

/-! ## Ticks -/

theorem recordsNode (e : Engine) (tick : String) (h : p.evaluateAll ctx = .ok outcome) {n : Node}
    (hn : n ∈ p.nodes) :
    e.RecordsNode tick outcome n
      { n with
        data := e.recorded tick ((outcome.value? n.id).getD Number.nan) (outcome.held? n.id)
          n.data } := by
  obtain ⟨x, hx⟩ := Program.exists_value?_of_evaluateAll h hn
  refine ⟨rfl, ⟨x, hx, ?_, ?_⟩, fun other hother => ?_, capacity_sampled _ _ _, rfl,
    Program.held?_of_evaluateAll h hn⟩
  · simp only [recorded, hx, Option.getD_some]
    exact Std.ExtTreeMap.getElem?_insert_self
  · simp only [recorded, hx, Option.getD_some]
    exact samples_sampled _ _ _
  · simp only [recorded, Std.ExtTreeMap.getElem?_insert]
    exact if_neg fun heq => hother (Std.LawfulEqOrd.eq_of_compare heq).symm

theorem records_record (e : Engine) (tick : String) (h : p.evaluateAll ctx = .ok outcome) :
    e.Records tick outcome p (e.record p tick outcome) where
  id := rfl
  connections := rfl
  log := rfl
  nodes := List.forall₂_map_right_iff.mpr
    (List.forall₂_same.mpr fun _ hn => recordsNode e tick h hn)

/-- A tick that runs records the outcome of the pass over the program before it, and then drops what a
limit on the log leaves out. -/
theorem advance_of_ok {e : Engine} {tick : String} (hok : (e.advance p tick ctx).1 = .ok outcome) :
    p.evaluateAll ctx = .ok outcome ∧
      (e.advance p tick ctx).2 = match e.tickRetention with
        | some keep => (e.record p tick outcome).retain keep
        | none => e.record p tick outcome := by
  unfold advance at hok ⊢
  cases hpass : p.evaluateAll ctx with
  | error err => simp [hpass] at hok
  | ok all =>
    simp only [hpass, Except.ok.injEq] at hok
    subst hok
    exact ⟨rfl, rfl⟩

/-- A limit on the log takes entries away and nothing else. -/
theorem nodes_retain (p : Program) (keep : Nat) : ∃ drop : TickEntries → TickEntries,
    (p.retain keep).nodes = p.nodes.map fun n =>
      { n with data := { n.data with tickEntries := drop n.data.tickEntries } } :=
  ⟨(p.recentTicks.take (p.recentTicks.length - keep)).foldl fun t tick => t.erase tick, rfl⟩

/-- A tick that runs records in every node what the pass showed and held, whatever it drops. -/
theorem nodes_of_advance {e : Engine} {tick : String} (hok : (e.advance p tick ctx).1 = .ok outcome) :
    p.evaluateAll ctx = .ok outcome ∧ ∃ entries : Node → TickEntries,
      (e.advance p tick ctx).2.nodes = p.nodes.map fun n => n.withRecords (entries n)
        (e.sampled n.data.recentValues ((outcome.value? n.id).getD Number.nan))
        (outcome.held? n.id) := by
  obtain ⟨hpass, hafter⟩ := advance_of_ok hok
  refine ⟨hpass, ?_⟩
  rw [hafter]
  cases e.tickRetention with
  | none => exact ⟨_, rfl⟩
  | some keep =>
    obtain ⟨drop, hdrop⟩ := nodes_retain (e.record p tick outcome) keep
    exact ⟨_, hdrop.trans List.map_map⟩

theorem advance_of_error {e : Engine} {tick : String} {err : PassError}
    (herr : (e.advance p tick ctx).1 = .error err) : (e.advance p tick ctx).2 = p := by
  unfold advance at herr ⊢
  split at herr
  · rfl
  · exact absurd herr (by simp)

/-- A tick that runs, with no limit on the log, records the outcome of the pass over the program
before it. -/
theorem records_of_advance {e : Engine} {tick : String} (hretention : e.tickRetention = none)
    (hok : (e.advance p tick ctx).1 = .ok outcome) :
    p.evaluateAll ctx = .ok outcome ∧ e.Records tick outcome p (e.advance p tick ctx).2 := by
  obtain ⟨hpass, hafter⟩ := advance_of_ok hok
  rw [hafter, hretention]
  exact ⟨hpass, e.records_record tick hpass⟩

theorem advance_eq_error_iff (e : Engine) (p : Program) (tick : String) (ctx : Context) :
    (∃ err, (e.advance p tick ctx).1 = .error err) ↔ ¬ p.AcyclicOn (p.hasNode ·) := by
  rw [← (Program.selects_all p).pass_ok_iff ctx]
  show _ ↔ ¬ ∃ outcome, p.evaluateAll ctx = .ok outcome
  unfold advance
  cases p.evaluateAll ctx with
  | error err => simp
  | ok outcome => simp

/-- **A tick is atomic and exact.** One that fails leaves the program as it was. One that runs, with
no limit on the log, records the outcome of the pass over the program before it and changes nothing
else. It fails exactly when the connections of the whole program have a cycle, and so does every
other tick of this program, now or after any further ticks by any engines. -/
theorem advance_records (e : Engine) (p : Program) (tick : String) (ctx : Context) :
    (∀ err, (e.advance p tick ctx).1 = .error err → (e.advance p tick ctx).2 = p) ∧
    (∀ outcome, (e.advance p tick ctx).1 = .ok outcome → e.tickRetention = none →
      p.evaluateAll ctx = .ok outcome ∧ e.Records tick outcome p (e.advance p tick ctx).2) ∧
    ∀ q, Relation.ReflTransGen Program.TicksTo p q → ∀ (e' : Engine) (tick' : String)
      (ctx' : Context),
      (∃ err, (e'.advance q tick' ctx').1 = .error err) ↔ ¬ p.AcyclicOn (p.hasNode ·) := by
  refine ⟨?_, ?_, ?_⟩
  · intro err herr
    exact advance_of_error herr
  · intro outcome hok hretention
    exact records_of_advance hretention hok
  · intro q hq e' tick' ctx'
    rw [advance_eq_error_iff, (Program.sameGraph_of_ticksTo hq).acyclicOn_iff]

/-- A sum can be ticked, and after that every engine can tick it again; with a relay that feeds itself
in it, a tick changes nothing. -/
theorem adder_advance_records :
    let e : Engine := {}
    let q := (e.advance Program.adder "1" ⟨0, ∅⟩).2
    (∃ outcome, Program.adder.evaluateAll ⟨0, ∅⟩ = .ok outcome ∧
      e.Records "1" outcome Program.adder q) ∧
    (∀ (e' : Engine) tick ctx, ¬ ∃ err, (e'.advance q tick ctx).1 = .error err) ∧
    (e.advance Program.adderWithLoop "1" ⟨0, ∅⟩).1 = .error (.cycle ["r"]) ∧
    (e.advance Program.adderWithLoop "1" ⟨0, ∅⟩).2 = Program.adderWithLoop := by
  intro e q
  obtain ⟨-, hrecords, hticks⟩ := advance_records e Program.adder "1" ⟨0, ∅⟩
  have hok : (e.advance Program.adder "1" ⟨0, ∅⟩).1
      = .ok (Program.adder.visitAll ⟨0, ∅⟩ (["n", "m", "r", "s"].filterMap Program.adder.node?)) := by
    rfl
  have herr : (e.advance Program.adderWithLoop "1" ⟨0, ∅⟩).1 = .error (.cycle ["r"]) := by rfl
  refine ⟨⟨_, hrecords _ hok rfl⟩, fun e' tick ctx herror => ?_, herr,
    (advance_records e Program.adderWithLoop "1" ⟨0, ∅⟩).1 _ herr⟩
  -- The first tick ran, so no connections of the sum are in the way of another.
  have hcycle := (hticks q (.single ⟨e, "1", ⟨0, ∅⟩, rfl⟩) e' tick ctx).mp herror
  obtain ⟨err, hfirst⟩ := (hticks Program.adder .refl e "1" ⟨0, ∅⟩).mpr hcycle
  rw [hok] at hfirst
  exact absurd hfirst (by simp)

end Engine

end Dataflow
