import Dataflow.Proofs.Alike
import Dataflow.Proofs.Locality
/-!
# The settings for the history

How many samples a node keeps and how many ticks the log keeps are settings of the engine. Main
statement: they change nothing that is computed. A definition that two engines with the same catalog
load, and that each of them ticks in the same way, has the same outcome at every tick, and the same
texts are recorded (`advance_settings`).

The two programs differ in their buffers, their entries and their logs. What stays the same is the
state that a pass looks at (`Program.SameState`), because each trimming of a buffer keeps the last
sample; a tick keeps this (`SameState.advance`), and so a run does (`SameState.advanceAll`).
-/
set_option autoImplicit false

namespace Dataflow

namespace Program

/-- The two programs have the same connections, and their nodes are one by one in the same state. -/
structure SameState (p q : Program) : Prop where
  connections : q.connections = p.connections
  nodes : List.Forall₂ Node.SameState p.nodes q.nodes

namespace SameState

variable {p q : Program}

theorem toMatches (h : p.SameState q) (ctx : Context) : Matches ctx p q :=
  ⟨h.connections, h.nodes.imp fun _ _ hnm => hnm.agrees rfl fun _ => rfl⟩

theorem mapData (h : p.SameState q) {f g : Node → NodeData}
    (hfg : ∀ n m : Node, n.SameState m →
      Node.SameState { n with data := f n } { m with data := g m }) :
    (p.mapData f).SameState (q.mapData g) where
  connections := h.connections
  nodes := List.forall₂_map_left_iff.mpr (List.forall₂_map_right_iff.mpr (h.nodes.imp hfg))

theorem withRecentTicks (h : p.SameState q) (ticks ticks' : List String) :
    (p.withRecentTicks ticks).SameState (q.withRecentTicks ticks') :=
  ⟨h.connections, h.nodes⟩

/-- What two engines record differs in the samples before the last one and in the logs. -/
theorem record (h : p.SameState q) (e e' : Engine) (tick : String) (outcome : Evaluation) :
    (e.record p tick outcome).SameState (e'.record q tick outcome) := by
  refine (h.mapData fun n m hnm => ?_).withRecentTicks _ _
  refine ⟨hnm.id_eq, hnm.kind_eq, hnm.properties, ?_, ?_⟩
  · have hlast := e.last?_sampled n.data.recentValues ((outcome.value? n.id).getD Number.nan)
    have hlast' := e'.last?_sampled m.data.recentValues ((outcome.value? m.id).getD Number.nan)
    have hvalue : outcome.value? m.id = outcome.value? n.id := congrArg outcome.value? hnm.id_eq
    exact hlast'.trans (by rw [hvalue, ← hlast]; rfl)
  · exact congrArg outcome.held? hnm.id_eq

/-- The entries and the logs do not belong to the state. -/
theorem retain_left (h : p.SameState q) (keep : Nat) : (p.retain keep).SameState q where
  connections := h.connections
  nodes := List.forall₂_map_left_iff.mpr (h.nodes.imp fun _ _ hnm =>
    ⟨hnm.id_eq, hnm.kind_eq, hnm.properties, hnm.previousValue?, hnm.heldValue⟩)

theorem retain_right (h : p.SameState q) (keep : Nat) : p.SameState (q.retain keep) where
  connections := h.connections
  nodes := List.forall₂_map_right_iff.mpr (h.nodes.imp fun _ _ hnm =>
    ⟨hnm.id_eq, hnm.kind_eq, hnm.properties, hnm.previousValue?, hnm.heldValue⟩)

/-- **Programs in the same state are so after a tick by any two engines, and the tick has the same
outcome.** -/
theorem advance (h : p.SameState q) (e e' : Engine) (tick : String) (ctx : Context) :
    (e'.advance q tick ctx).1 = (e.advance p tick ctx).1 ∧
      (e.advance p tick ctx).2.SameState (e'.advance q tick ctx).2 := by
  rw [Engine.advance, Engine.advance, (h.toMatches ctx).evaluateAll]
  cases p.evaluateAll ctx with
  | error err => exact ⟨rfl, h⟩
  | ok outcome =>
    refine ⟨rfl, ?_⟩
    have hrecord := h.record e e' tick outcome
    cases e.tickRetention with
    | none =>
      cases e'.tickRetention with
      | none => exact hrecord
      | some keep' => exact hrecord.retain_right keep'
    | some keep =>
      cases e'.tickRetention with
      | none => exact hrecord.retain_left keep
      | some keep' => exact (hrecord.retain_left keep).retain_right keep'

theorem advanceAll (h : p.SameState q) (e e' : Engine) (ticks : List (String × Context)) :
    (e.advanceAll p ticks).SameState (e'.advanceAll q ticks) := by
  induction ticks generalizing p q with
  | nil => exact h
  | cons t rest ih => exact ih (h.advance e e' t.1 t.2).2

end SameState

end Program

/-! ## Loading -/

namespace Engine

variable {e e' : Engine} {d : Definition}

/-- Two engines with the same catalog refuse the same definitions, for the same reason. -/
theorem load_eq_error_iff (hcatalog : e'.catalog = e.catalog) {err : LoadError} :
    e'.load d = .error err ↔ e.load d = .error err := by
  rw [load, load, hcatalog]
  cases Program.ofDefinition? e.catalog d with
  | error _ => exact Iff.rfl
  | ok p => simp

/-- What two engines with the same catalog make of a definition is in the same state, however much of
the samples fits their buffers. -/
theorem sameState_of_load (hcatalog : e'.catalog = e.catalog) {p q : Program} (hp : e.load d = .ok p)
    (hq : e'.load d = .ok q) : p.SameState q := by
  rw [load] at hp hq
  rw [hcatalog] at hq
  cases hdefinition : Program.ofDefinition? e.catalog d with
  | error _ => exact absurd hp (by simp [hdefinition])
  | ok r =>
    simp only [hdefinition, Except.ok.injEq] at hp hq
    subst hp hq
    refine ⟨rfl, List.forall₂_map_left_iff.mpr (List.forall₂_map_right_iff.mpr
      (List.forall₂_same.mpr fun n _ => ⟨rfl, rfl, rfl, ?_, rfl⟩))⟩
    exact (RecentValues.last?_setCapacity _ _).trans (RecentValues.last?_setCapacity _ _).symm

/-! ## Recorded texts -/

/-- The texts that a tick with the given outcome records, by node, at the moment when it records them:
nothing has been dropped yet. -/
def recordedTexts (e : Engine) (p : Program) (tick : String) (outcome : Evaluation) :
    List (String × Option String) :=
  (e.record p tick outcome).nodes.map fun n => (n.id, n.valueAt? tick)

theorem recordedTexts_eq (e : Engine) (p : Program) (tick : String) (outcome : Evaluation) :
    e.recordedTexts p tick outcome = (p.nodes.map (·.id)).map fun id =>
      (id, some (Number.text ((outcome.value? id).getD Number.nan))) := by
  rw [recordedTexts, List.map_map]
  refine List.map_map.trans (List.map_congr_left fun n _ => ?_)
  simp only [Function.comp_apply, NodeDefinition.valueAt?, recorded,
    Std.ExtTreeMap.getElem?_insert_self, Option.bind_some]

/-- **The settings for the history change nothing that is computed.** Two engines with the same catalog
refuse the same definitions. What they load has, whatever ticks were made already, the same outcome at
the next tick: it fails for the same reason, or it visits the nodes in the same order, with the same
outputs, held values and warnings; and the same text is recorded for every node. -/
theorem advance_settings (hcatalog : e'.catalog = e.catalog) (d : Definition) :
    (∀ err, e'.load d = .error err ↔ e.load d = .error err) ∧
    ∀ p q, e.load d = .ok p → e'.load d = .ok q → ∀ ticks tick ctx,
      (e'.advance (e'.advanceAll q ticks) tick ctx).1
        = (e.advance (e.advanceAll p ticks) tick ctx).1 ∧
      ∀ outcome, (e.advance (e.advanceAll p ticks) tick ctx).1 = .ok outcome →
        e'.recordedTexts (e'.advanceAll q ticks) tick outcome
          = e.recordedTexts (e.advanceAll p ticks) tick outcome := by
  refine ⟨fun err => load_eq_error_iff hcatalog, fun p q hp hq ticks tick ctx => ?_⟩
  have hstate := (sameState_of_load hcatalog hp hq).advanceAll e e' ticks
  refine ⟨(hstate.advance e e' tick ctx).1, fun outcome _ => ?_⟩
  rw [recordedTexts_eq, recordedTexts_eq, (hstate.toMatches ctx).sameGraph.2]

/-- A meter whose ramp has two samples, under an engine with room for all and one that keeps a single
sample and a single tick. -/
theorem meter_advance_settings :
    let e : Engine := {}
    let e' := (e.withMaxNodeValues 1).withTickRetention 1
    e'.catalog = e.catalog ∧ ∃ p q, e.load Program.meter.toDefinition = .ok p ∧
      e'.load Program.meter.toDefinition = .ok q ∧
      p.nodes.map (·.data.recentValues.samples.length) = [0, 0, 0, 2] ∧
      q.nodes.map (·.data.recentValues.samples.length) = [0, 0, 0, 1] ∧
      ∀ ticks tick ctx, (e'.advance (e'.advanceAll q ticks) tick ctx).1
        = (e.advance (e.advanceAll p ticks) tick ctx).1 := by
  intro e e'
  have hload : e.load Program.meter.toDefinition
      = .ok (Program.meter.mapData fun n => e.resize n.data) := by rfl
  have hload' : e'.load Program.meter.toDefinition
      = .ok (Program.meter.mapData fun n => e'.resize n.data) := by rfl
  have hcatalog : e'.catalog = e.catalog := rfl
  obtain ⟨-, hsame⟩ := advance_settings hcatalog Program.meter.toDefinition
  exact ⟨hcatalog, _, _, hload, hload', by decide, by decide, fun ticks tick ctx =>
    (hsame _ _ hload hload' ticks tick ctx).1⟩

end Engine

end Dataflow
