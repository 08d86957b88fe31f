import Dataflow.Proofs.Agreement
/-!
# Programs that behave alike

Nodes whose histories differ may still compute the same, whatever they are given. Main statement:
programs with such nodes stay alike at every tick, and every tick has the same outcome for both
(`Program.Alike.advance`); so they record the same whatever ticks follow (`Program.Alike.recordsSame`).
-/
set_option autoImplicit false

namespace Dataflow

/-! ## Nodes that behave alike -/

namespace Node

/-- The node with another history: other recent values and another held value. -/
def withHistory (n : Node) (r : RecentValues) (held : Option Float) : Node :=
  { n with data := { n.data with recentValues := r, heldValue := held } }

/-- The node `m` is `n` up to its history, and whatever it is given it computes the same. -/
structure Alike (n m : Node) : Prop where
  exists_history : ∃ r held, m = n.withHistory r held
  outputs : ∀ inputs ctx, m.outputs inputs ctx = n.outputs inputs ctx
  held? : ∀ inputs, m.held? inputs = n.held? inputs

variable {n : Node} {r r' : RecentValues}

/-- Only transforms and control nodes look at their history. -/
theorem alike_withHistory (r : RecentValues) (held : Option Float)
    (htransform : n.kind = .transform → ∀ inputs,
      (n.withHistory r held).transformValue inputs = n.transformValue inputs)
    (hcontrol : n.kind = .control → ∀ inputs,
      (n.withHistory r held).gateStep inputs = n.gateStep inputs) :
    n.Alike (n.withHistory r held) := by
  have hkind : (n.withHistory r held).kind = n.kind := rfl
  refine ⟨⟨r, held, rfl⟩, fun inputs ctx => ?_, fun inputs => ?_⟩
  · rw [Node.outputs, Node.outputs, hkind]
    split
    · rfl
    · rfl
    · rfl
    · rfl
    · rfl
    · rfl
    · next h => rw [htransform h]
    · next h => rw [hcontrol h]
    · rfl
  · rw [Node.held?, Node.held?, hkind]
    split
    · next h => rw [hcontrol h]
    · rfl

/-- Of the recent values only the last one matters. -/
theorem alike_of_last? (n : Node) (held : Option Float) (h : r'.last? = r.last?) :
    (n.withHistory r held).Alike (n.withHistory r' held) := by
  have hprevious : (n.withHistory r' held).previousValue? = (n.withHistory r held).previousValue? := h
  refine alike_withHistory (n := n.withHistory r held) r' held (fun _ inputs => ?_) fun _ inputs => ?_
  · change (n.withHistory r' held).transformValue inputs = _
    rw [transformValue, hprevious]
    rfl
  · change (n.withHistory r' held).gateStep inputs = _
    rw [gateStep, hprevious]
    rfl

theorem Alike.id_eq {m : Node} (h : n.Alike m) : m.id = n.id := by
  obtain ⟨r, held, rfl⟩ := h.exists_history
  rfl

theorem Alike.kind_eq {m : Node} (h : n.Alike m) : m.kind = n.kind := by
  obtain ⟨r, held, rfl⟩ := h.exists_history
  rfl

/-- Entries of ticks do not matter. -/
theorem Alike.withEntries {m : Node} (h : n.Alike m) (entries : TickEntries) :
    Node.Alike { n with data := { n.data with tickEntries := entries } }
      { m with data := { m.data with tickEntries := entries } } := by
  obtain ⟨r, held, rfl⟩ := h.exists_history
  exact ⟨⟨r, held, rfl⟩, h.outputs, h.held?⟩

end Node

/-! ## Programs that behave alike -/

/-- The program `q` is `p` up to the histories of its nodes, and its nodes compute the same. -/
structure Program.Alike (p q : Program) : Prop where
  connections : q.connections = p.connections
  log : q.recentTicks = p.recentTicks
  nodes : List.Forall₂ Node.Alike p.nodes q.nodes

namespace Program.Alike

variable {p q : Program}

/-- In any context the nodes of the two programs agree one by one. -/
theorem toMatches (h : p.Alike q) (ctx : Context) : Matches ctx p q :=
  ⟨h.connections, h.nodes.imp fun _ _ hnm =>
    ⟨hnm.id_eq, hnm.kind_eq, fun inputs => hnm.outputs inputs ctx, hnm.held?⟩⟩

/-- **Programs that behave alike show the same.** -/
theorem evaluateAll (h : p.Alike q) (ctx : Context) : q.evaluateAll ctx = p.evaluateAll ctx :=
  (h.toMatches ctx).evaluateAll

theorem mapData (h : p.Alike q) {f g : Node → NodeData}
    (hfg : ∀ n m : Node, n.Alike m → Node.Alike { n with data := f n } { m with data := g m }) :
    (p.mapData f).Alike (q.mapData g) where
  connections := h.connections
  log := h.log
  nodes := List.forall₂_map_left_iff.mpr (List.forall₂_map_right_iff.mpr (h.nodes.imp hfg))

theorem withRecentTicks (h : p.Alike q) (ticks : List String) :
    (p.withRecentTicks ticks).Alike (q.withRecentTicks ticks) where
  connections := h.connections
  log := rfl
  nodes := h.nodes

/-- After a tick the two nodes have the same last sample and hold the same. -/
theorem record (h : p.Alike q) (e : Engine) (tick : String) (outcome : Evaluation) :
    (e.record p tick outcome).Alike (e.record q tick outcome) := by
  rw [Engine.record, Engine.record, h.log]
  refine (h.mapData fun n m hnm => ?_).withRecentTicks _
  obtain ⟨r, held, rfl⟩ := hnm.exists_history
  exact Node.alike_of_last? { n with data := e.recorded tick _ (outcome.held? n.id) n.data } _
    ((e.last?_sampled r _).trans (e.last?_sampled n.data.recentValues _).symm)

theorem retain (h : p.Alike q) (keep : Nat) : (p.retain keep).Alike (q.retain keep) := by
  rw [Program.retain, Program.retain, h.log]
  refine (h.mapData fun n m hnm => ?_).withRecentTicks _
  obtain ⟨r, held, rfl⟩ := hnm.exists_history
  exact hnm.withEntries _

/-- **Programs that behave alike do so after a tick, and the tick has the same outcome.** -/
theorem advance (h : p.Alike q) (e : Engine) (tick : String) (ctx : Context) :
    (e.advance q tick ctx).1 = (e.advance p tick ctx).1 ∧
      (e.advance p tick ctx).2.Alike (e.advance q tick ctx).2 := by
  rw [Engine.advance, Engine.advance, h.evaluateAll]
  cases p.evaluateAll ctx with
  | error err => exact ⟨rfl, h⟩
  | ok outcome =>
    refine ⟨rfl, ?_⟩
    cases e.tickRetention with
    | none => exact h.record e tick outcome
    | some keep => exact (h.record e tick outcome).retain keep

end Program.Alike

/-! ## Runs -/

/-- The program after further ticks, each with its id and its context. -/
def Engine.advanceAll (e : Engine) (p : Program) (ticks : List (String × Context)) : Program :=
  ticks.foldl (fun p t => (e.advance p t.1 t.2).2) p

theorem Program.Alike.advanceAll {p q : Program} (h : p.Alike q) (e : Engine)
    (ticks : List (String × Context)) : (e.advanceAll p ticks).Alike (e.advanceAll q ticks) := by
  induction ticks generalizing p q with
  | nil => exact h
  | cons t rest ih => exact ih (h.advance e t.1 t.2).2

/-- Whatever ticks follow, the two programs record the same: every tick has the same outcome, the logs
agree, and the nodes, in their order, have the same ids and entries. -/
structure Engine.RecordsSame (e : Engine) (p q : Program) : Prop where
  outcome : ∀ ticks tick ctx,
    (e.advance (e.advanceAll q ticks) tick ctx).1 = (e.advance (e.advanceAll p ticks) tick ctx).1
  log : ∀ ticks, (e.advanceAll q ticks).recentTicks = (e.advanceAll p ticks).recentTicks
  entries : ∀ ticks, (e.advanceAll q ticks).nodes.map (fun n => (n.id, n.data.tickEntries))
    = (e.advanceAll p ticks).nodes.map fun n => (n.id, n.data.tickEntries)

theorem Program.Alike.entries_eq {p q : Program} (h : p.Alike q) :
    q.nodes.map (fun n => (n.id, n.data.tickEntries))
      = p.nodes.map fun n => (n.id, n.data.tickEntries) := by
  have hnodes := h.nodes
  generalize p.nodes = nodes, q.nodes = nodes' at hnodes
  induction hnodes with
  | nil => rfl
  | cons hnm _ ih =>
    obtain ⟨r, held, rfl⟩ := hnm.exists_history
    rw [List.map_cons, List.map_cons, ih]
    rfl

theorem Program.Alike.recordsSame {p q : Program} (h : p.Alike q) (e : Engine) :
    e.RecordsSame p q where
  outcome ticks tick ctx := ((h.advanceAll e ticks).advance e tick ctx).1
  log ticks := (h.advanceAll e ticks).log
  entries ticks := (h.advanceAll e ticks).entries_eq

end Dataflow
