import Dataflow.Proofs.Agreement
/-!
# Evaluation is local

An evaluation looks at its target and what feeds it, and at nothing else. Main statement: it has the
same outcome in two programs that are the same upstream of the target (`evaluate_local`), whatever the
other nodes and connections are, cycles among them included, whatever the other channels read, and
whatever names, places, entries and older samples the nodes have.
-/
set_option autoImplicit false

namespace Dataflow

namespace Program

/-- Upstream of the target the two programs are the same, each in its context: the same ids, under each
of them nodes in the same state with the same connections leading in, the same time, and the same
reading for every sensor. -/
structure SameUpstream (p q : Program) (cp cq : Context) (target : String) : Prop where
  supplies_iff : ∀ id, q.Supplies id target ↔ p.Supplies id target
  nodes : ∀ n ∈ p.nodes, p.Supplies n.id target → ∃ m ∈ q.nodes, n.SameState m
  incoming : ∀ id, p.Supplies id target → q.incoming id = p.incoming id
  time : cq.time = cp.time
  readings : ∀ n ∈ p.nodes, p.Supplies n.id target → n.kind = .sensor →
    cq.reading? n.channel = cp.reading? n.channel

variable {p q : Program} {cp cq : Context} {target : String}

theorem SameUpstream.hasNode_target (h : SameUpstream p q cp cq target) (ht : p.hasNode target) :
    q.hasNode target :=
  ((h.supplies_iff target).mpr ⟨ht, .refl⟩).1

theorem SameUpstream.sameOn (h : SameUpstream p q cp cq target) :
    SameOn (p.Supplies · target) cp cq p q where
  nodes := fun n hn hS => by
    obtain ⟨m, hm, hnm⟩ := h.nodes n hn hS
    exact ⟨m, hm, hnm.agrees h.time (h.readings n hn hS)⟩
  into := fun id pin hS => by rw [into, into, h.incoming id hS]

/-- **Evaluation is local.** Two programs that are the same upstream of a node evaluate it alike: either
both fail, for cycles of the same nodes, or both succeed, and every node shows and holds the same. -/
theorem evaluate_local (ht : p.hasNode target) (h : SameUpstream p q cp cq target) :
    SameOutcome (p.evaluate cp target) (q.evaluate cq target) := by
  have ht' := h.hasNode_target ht
  have hsupplies : (q.Supplies · target) = (p.Supplies · target) :=
    funext fun id => propext (h.supplies_iff id)
  have hq := selects_suppliers ht'
  rw [hsupplies] at hq
  rw [evaluate_eq_pass ht, evaluate_eq_pass ht']
  exact (selects_suppliers ht).sameOutcome hq h.sameOn

end Program

/-! ## A meter in two places -/

/-- A node with one property and some samples. -/
def Node.configured (id : String) (kind : Kind) (key : String) (value : Json.Value)
    (samples : List Float := []) : Node where
  id := id
  name := kind.name
  data := {
    typeName := kind.name
    properties := [(key, value)]
    recentValues := .ofList samples }
  kind := kind

/-- Of the samples only the last one belongs to the state. -/
theorem Node.sameState_configured (id : String) (kind : Kind) (key : String) (value : Json.Value)
    (samples samples' : List Float) (h : samples'.getLast? = samples.getLast?) :
    (Node.configured id kind key value samples).SameState
      (Node.configured id kind key value samples') :=
  ⟨rfl, rfl, rfl, h, rfl⟩

namespace Program

/-- The sum of a reading and a number, smoothed. -/
def meter : Program where
  id := none
  nodes := [
    .configured "in" .sensor "sensor" (.string "main"),
    .configured "k" .number "value" (.number (.integer 2)),
    .configured "sum" .math "mathOperator" (.string "Add"),
    .configured "ramp" .transform "transformOperator" (.string "Ramp") [1.0, 4.0]]
  connections := [⟨"1", "in", "value", "sum", "num1"⟩, ⟨"2", "k", "value", "sum", "num2"⟩,
    ⟨"3", "sum", "value", "ramp", "num1"⟩, ⟨"4", "gone", "value", "sum", "num2"⟩]
  recentTicks := []
  nodes_nodup := by decide
  connections_nodup := by decide

/-- The same meter in another program: its tables have another order, the ramp has other old samples,
and a relay behind the sum feeds itself. -/
def meterElsewhere : Program where
  id := some "elsewhere"
  nodes := [
    .configured "loop" .relay "note" .null,
    .configured "ramp" .transform "transformOperator" (.string "Ramp") [9.0, 9.0, 4.0],
    .configured "sum" .math "mathOperator" (.string "Add"),
    .configured "k" .number "value" (.number (.integer 2)),
    .configured "in" .sensor "sensor" (.string "main")]
  connections := [⟨"8", "loop", "value", "loop", "num1"⟩, ⟨"3", "sum", "value", "ramp", "num1"⟩,
    ⟨"1", "in", "value", "sum", "num1"⟩, ⟨"9", "sum", "value", "loop", "num1"⟩,
    ⟨"2", "k", "value", "sum", "num2"⟩, ⟨"4", "gone", "value", "sum", "num2"⟩]
  recentTicks := ["0"]
  nodes_nodup := by decide
  connections_nodup := by decide

theorem meter_suppliers : meter.suppliers "ramp" = ["in", "k", "sum", "ramp"] := by decide

theorem meterElsewhere_suppliers :
    meterElsewhere.suppliers "ramp" = ["ramp", "sum", "k", "in"] := by decide

/-- Upstream of the ramp the two meters are the same as long as the sensor reads the same. -/
theorem sameUpstream_meter (x y : Float) : SameUpstream meter meterElsewhere
    ((Context.mk 5 ∅).withReading "main" x)
    (((Context.mk 5 ∅).withReading "main" x).withReading "other" y) "ramp" := by
  have hids : ∀ id, meter.Supplies id "ramp" ↔ id ∈ ["in", "k", "sum", "ramp"] := fun id => by
    rw [← mem_suppliers_iff (by decide), meter_suppliers]
  refine ⟨fun id => ?_, fun n hn _ => ?_, fun id hid => ?_, rfl, fun n hn _ hkind => ?_⟩
  · rw [hids, ← mem_suppliers_iff (by decide), meterElsewhere_suppliers]
    exact (List.reverse_perm ["in", "k", "sum", "ramp"]).mem_iff
  · simp only [meter, List.mem_cons, List.not_mem_nil, or_false] at hn
    rcases hn with rfl | rfl | rfl | rfl
    · exact ⟨_, by simp [meterElsewhere], Node.sameState_configured _ _ _ _ _ _ rfl⟩
    · exact ⟨_, by simp [meterElsewhere], Node.sameState_configured _ _ _ _ _ _ rfl⟩
    · exact ⟨_, by simp [meterElsewhere], Node.sameState_configured _ _ _ _ _ _ rfl⟩
    · refine ⟨_, ?_, Node.sameState_configured _ _ _ _ _ [9.0, 9.0, 4.0] ?_⟩
      · simp [meterElsewhere]
      · simp only [List.getLast?_cons_cons, List.getLast?_singleton]
  · have hincoming : ∀ id ∈ ["in", "k", "sum", "ramp"],
        meterElsewhere.incoming id = meter.incoming id := by decide
    exact hincoming id ((hids id).mp hid)
  · -- The reading of the other channel does not replace that of the sensor.
    have hchannel : n.channel = "main" := by
      simp only [meter, List.mem_cons, List.not_mem_nil, or_false] at hn
      rcases hn with rfl | rfl | rfl | rfl
      · rfl
      all_goals exact absurd hkind (by decide)
    rw [hchannel, Context.reading?, Context.withReading, Std.ExtTreeMap.getElem?_insert]
    rfl

theorem meter_evaluate (ctx : Context) :
    meter.evaluate ctx "ramp"
      = .ok (meter.visitAll ctx (["in", "k", "sum", "ramp"].filterMap meter.node?)) := by
  rfl

/-- The ramp shows the same in both programs, although the second has a cycle and other old samples. -/
theorem meter_local :
    let cp := (Context.mk 5 ∅).withReading "main" 7.0
    let cq := cp.withReading "other" 1.0
    meter.hasNode "ramp" ∧ SameUpstream meter meterElsewhere cp cq "ramp" ∧
      SameOutcome (meter.evaluate cp "ramp") (meterElsewhere.evaluate cq "ramp") ∧
      (∃ e, meter.evaluate cp "ramp" = .ok e) ∧ ¬ ∃ f, meterElsewhere.evaluateAll cq = .ok f := by
  intro cp cq
  have hramp : meter.hasNode "ramp" := by decide
  refine ⟨hramp, sameUpstream_meter _ _, evaluate_local hramp (sameUpstream_meter _ _),
    ⟨_, meter_evaluate cp⟩, ?_⟩
  rintro ⟨f, hf⟩
  have hcycle : meterElsewhere.evaluateAll cq = .error (.cycle ["loop"]) := by rfl
  rw [hcycle] at hf
  exact absurd hf (by simp)

end Program

end Dataflow
