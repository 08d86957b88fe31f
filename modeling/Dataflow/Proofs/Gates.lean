import Mathlib.Data.List.DropRight
import Dataflow.Proofs.Tick
/-!
# Gates over a run

A gate is on for stretches of ticks. Between two ticks a control node keeps two things, what it holds
and its last sample; what it shows is told here by the ticks of the stretch and the value before it.
Main statement: in every run a control node that held nothing at first shows at every tick what its
operator promises (`Program.gate_latches`).

What is held does not tell that story alone. A signal that is no number releases it, and a gate on
its prior value then latches its own last sample; `Hold.Latched` says that this is still the value
from before the stretch.
-/
set_option autoImplicit false

namespace Dataflow

/-- One tick of a gate: what it was given, what it showed, and what it held into the next tick. -/
structure GateTick where
  on : Bool
  signal : Float
  shown : Float
  held : Option Float

namespace Hold

/-! ## Stretches -/

/-- The ticks of the stretch for which the gate is on at the end of a history. -/
def stretch (history : List GateTick) : List GateTick :=
  history.rtakeWhile (·.on)

/-- The ticks before that stretch. -/
def beforeStretch (history : List GateTick) : List GateTick :=
  history.rdropWhile (·.on)

/-- The value of the last tick; before the first tick it is the last sample that was loaded. -/
def lastShown (loaded : Option Float) (history : List GateTick) : Option Float :=
  (history.getLast?.map (·.shown)).or loaded

def lastHeld (history : List GateTick) : Option Float :=
  history.getLast?.bind (·.held)

/-- The latest tick of a stretch whose signal is no number, or else its first tick. -/
def latchedAt? (stretch : List GateTick) : Option GateTick :=
  (stretch.filter (·.signal.isNaN)).getLast?.or stretch.head?

/-- The value from before the stretch, or 0 when there is none. -/
def valueBefore (loaded : Option Float) (history : List GateTick) : Float :=
  (lastShown loaded (beforeStretch history)).getD 0.0

/-- What a gate on its current value shows at the last of the given ticks of a stretch. -/
structure ShowsCurrent (ticks : List GateTick) (shown : Float) : Prop where
  latched : ∃ r, latchedAt? ticks = some r ∧ shown = r.signal
  /-- The value is that of the opening as long as every later signal is a number. -/
  constant : ∀ first rest, ticks = first :: rest → (∀ x ∈ rest, x.signal.isNaN = false) →
    shown = first.signal
  /-- From a signal that is no number on the value is none either. -/
  nan : (∃ x ∈ ticks, x.signal.isNaN = true) → shown.isNaN = true

/-- What a gate that is on shows at the last tick of a history, by its operator. -/
def ShowsOn (loaded : Option Float) (history : List GateTick) (shown : Float) : Hold → Prop
  | current => ShowsCurrent (stretch history) shown
  | prior => shown = valueBefore loaded history
  | zero => shown = 0.0

/-- What the operator of a gate promises of the tick `g` after the ticks of `history`, for a node that
was loaded with `loaded` as its last sample. -/
structure Shows (op : Hold) (loaded : Option Float) (history : List GateTick) (g : GateTick) :
    Prop where
  off : g.on = false → g.shown = g.signal ∧ g.held = none
  on : g.on = true → op.ShowsOn loaded (history ++ [g]) g.shown

variable {op : Hold} {loaded : Option Float} {history : List GateTick} {g : GateTick}

theorem lastShown_concat (loaded : Option Float) (history : List GateTick) (g : GateTick) :
    lastShown loaded (history ++ [g]) = some g.shown := by
  rw [lastShown, List.getLast?_concat, Option.map_some, Option.some_or]

theorem lastHeld_concat (history : List GateTick) (g : GateTick) :
    lastHeld (history ++ [g]) = g.held := by
  rw [lastHeld, List.getLast?_concat, Option.bind_some]

theorem stretch_concat_of_on (hon : g.on = true) :
    stretch (history ++ [g]) = stretch history ++ [g] :=
  List.rtakeWhile_concat_pos _ _ _ hon

theorem stretch_concat_of_off (hoff : g.on = false) : stretch (history ++ [g]) = [] :=
  List.rtakeWhile_concat_neg _ _ _ (by simp [hoff])

/-- While a gate stays on, the value from before the stretch stays the same. -/
theorem valueBefore_concat_of_on (loaded : Option Float) (hon : g.on = true) :
    valueBefore loaded (history ++ [g]) = valueBefore loaded history := by
  have hbefore : beforeStretch (history ++ [g]) = beforeStretch history :=
    List.rdropWhile_concat_pos _ _ _ hon
  rw [valueBefore, hbefore, valueBefore]

theorem valueBefore_concat_of_off (loaded : Option Float) (hoff : g.on = false) :
    valueBefore loaded (history ++ [g]) = g.shown := by
  have hbefore : beforeStretch (history ++ [g]) = history ++ [g] :=
    List.rdropWhile_concat_neg _ _ _ (by simp [hoff])
  rw [valueBefore, hbefore, lastShown_concat, Option.getD_some]

/-! ## Where a gate latches -/

theorem latchedAt?_concat (ticks : List GateTick) (g : GateTick) :
    latchedAt? (ticks ++ [g])
      = if g.signal.isNaN then some g else (latchedAt? ticks).or (some g) := by
  rw [latchedAt?, List.filter_append, List.filter_cons, List.filter_nil, List.head?_append,
    List.head?_cons]
  cases g.signal.isNaN with
  | true =>
    rw [if_pos rfl, List.getLast?_concat, Option.some_or]
    rfl
  | false =>
    rw [if_neg Bool.false_ne_true, List.append_nil, ← Option.or_assoc]
    rfl

theorem latchedAt?_cons {first : GateTick} {rest : List GateTick}
    (h : ∀ x ∈ rest, x.signal.isNaN = false) : latchedAt? (first :: rest) = some first := by
  have hrest : rest.filter (·.signal.isNaN) = [] :=
    List.filter_eq_nil_iff.mpr fun x hx => ne_true_of_eq_false (h x hx)
  rw [latchedAt?, List.filter_cons, hrest, List.head?_cons]
  cases first.signal.isNaN with
  | true => rfl
  | false => rfl

theorem isNaN_of_latchedAt? {ticks : List GateTick} {x r : GateTick} (hx : x ∈ ticks)
    (hnan : x.signal.isNaN = true) (hr : latchedAt? ticks = some r) : r.signal.isNaN = true := by
  have hmem : x ∈ ticks.filter (·.signal.isNaN) := List.mem_filter.mpr ⟨hx, hnan⟩
  rw [latchedAt?, List.getLast?_eq_some_getLast (List.ne_nil_of_mem hmem), Option.some_or] at hr
  have hlast := List.getLast_mem (List.ne_nil_of_mem hmem)
  rw [Option.some.inj hr] at hlast
  exact (List.mem_filter.mp hlast).2

theorem showsCurrent_of_latchedAt? {ticks : List GateTick} {r : GateTick}
    (hr : latchedAt? ticks = some r) : ShowsCurrent ticks r.signal where
  latched := ⟨r, hr, rfl⟩
  constant := fun first rest hticks hrest => by
    rw [hticks, latchedAt?_cons hrest] at hr
    rw [Option.some.inj hr]
  nan := fun ⟨_, hx, hnan⟩ => isNaN_of_latchedAt? hx hnan hr

/-! ## One tick -/

/-- What a gate remembers after the ticks of a history. On its current value it holds the signal that
it latched; on its prior value the one before the stretch is what it holds, if it holds any, and what
it showed last. -/
def Latched (loaded : Option Float) (history : List GateTick) : Hold → Prop
  | current => lastHeld history = (latchedAt? (stretch history)).map (·.signal)
  | prior => (∀ x ∈ lastHeld history, x = valueBefore loaded history) ∧
      (lastShown loaded history).getD 0.0 = valueBefore loaded history
  | zero => True

theorem latched_nil (loaded : Option Float) (op : Hold) : op.Latched loaded [] := by
  cases op with
  | current => rfl
  | prior => exact ⟨fun x hx => absurd hx (by simp [lastHeld]), rfl⟩
  | zero => trivial

/-- A gate that is off remembers nothing but its value. -/
theorem latched_concat_of_off (op : Hold) (hoff : g.on = false) (hheld : g.held = none) :
    op.Latched loaded (history ++ [g]) := by
  cases op with
  | current =>
    rw [Latched, lastHeld_concat, stretch_concat_of_off hoff, hheld]
    rfl
  | prior =>
    rw [Latched, lastHeld_concat, lastShown_concat, valueBefore_concat_of_off loaded hoff, hheld]
    exact ⟨fun x hx => absurd hx (by simp), rfl⟩
  | zero => trivial

/-- A gate on its current value shows and holds the signal that it latched last. -/
theorem current_of_on (h : current.Latched loaded history) (hon : g.on = true)
    (hg : (g.shown, g.held)
      = current.step g.on g.signal (lastHeld history) (lastShown loaded history)) :
    ∃ r, latchedAt? (stretch (history ++ [g])) = some r ∧ g.shown = r.signal ∧
      g.held = some r.signal := by
  rw [stretch_concat_of_on hon, latchedAt?_concat]
  rw [Latched] at h
  rw [hon, step, h] at hg
  cases hnan : g.signal.isNaN with
  | true =>
    simp only [hnan, if_true, Option.getD_none, Prod.mk.injEq] at hg
    exact ⟨g, by simp, hg⟩
  | false =>
    simp only [hnan, Bool.false_eq_true, if_false, if_true, Prod.mk.injEq] at hg ⊢
    cases hlatched : latchedAt? (stretch history) with
    | none =>
      rw [hlatched] at hg
      exact ⟨g, by simp, hg⟩
    | some r =>
      rw [hlatched] at hg
      exact ⟨r, by simp, hg⟩

/-- A gate on its prior value shows the value from before the stretch, and holds no other. -/
theorem prior_of_on (h : prior.Latched loaded history) (hon : g.on = true)
    (hg : (g.shown, g.held)
      = prior.step g.on g.signal (lastHeld history) (lastShown loaded history)) :
    g.shown = valueBefore loaded history ∧ ∀ x ∈ g.held, x = valueBefore loaded history := by
  obtain ⟨hheld, hlast⟩ := h
  -- What was held is kept or released; when it is kept it is the value from before the stretch.
  have hkept : ∀ x ∈ (if g.signal.isNaN then none else lastHeld history),
      x = valueBefore loaded history := by
    intro x hx
    split at hx
    · exact absurd hx (by simp)
    · exact hheld x hx
  rw [hon, step] at hg
  generalize (if g.signal.isNaN then none else lastHeld history) = kept at hg hkept
  simp only [if_true, Prod.mk.injEq] at hg
  obtain ⟨hshown, hnext⟩ := hg
  cases kept with
  | some x =>
    rw [Option.some_or] at hshown hnext
    rw [hshown, hnext]
    exact ⟨hkept x rfl, hkept⟩
  | none =>
    -- When it is released, the gate latches what it showed last.
    rw [Option.none_or] at hshown hnext
    refine ⟨hshown.trans hlast, fun x hx => ?_⟩
    rw [hnext, Option.mem_def] at hx
    rw [← hlast, hx, Option.getD_some]

/-- **A gate does at a tick what its operator promises, and goes on remembering.** -/
theorem Latched.shows (h : op.Latched loaded history)
    (hg : (g.shown, g.held) = op.step g.on g.signal (lastHeld history) (lastShown loaded history)) :
    op.Shows loaded history g ∧ op.Latched loaded (history ++ [g]) := by
  cases hon : g.on with
  | false =>
    have hstep : g.shown = g.signal ∧ g.held = none := by
      rw [hon] at hg
      exact Prod.mk.inj hg
    refine ⟨⟨fun _ => hstep, fun htrue => absurd htrue (by simp [hon])⟩, ?_⟩
    exact latched_concat_of_off op hon hstep.2
  | true =>
    have hoff : ¬ g.on = false := by simp [hon]
    cases op with
    | current =>
      obtain ⟨r, hr, hshown, hheld⟩ := current_of_on h hon hg
      refine ⟨⟨fun hfalse => absurd hfalse hoff, fun _ => ?_⟩, ?_⟩
      · rw [hshown]
        exact showsCurrent_of_latchedAt? hr
      · rw [Latched, lastHeld_concat, hr, hheld]
        rfl
    | prior =>
      obtain ⟨hshown, hheld⟩ := prior_of_on h hon hg
      rw [← valueBefore_concat_of_on loaded hon] at hshown hheld
      refine ⟨⟨fun hfalse => absurd hfalse hoff, fun _ => hshown⟩, ?_⟩
      rw [Latched, lastHeld_concat, lastShown_concat, Option.getD_some]
      exact ⟨hheld, hshown⟩
    | zero =>
      rw [hon] at hg
      exact ⟨⟨fun hfalse => absurd hfalse hoff, fun _ => (Prod.mk.inj hg).1⟩, trivial⟩

end Hold

/-! ## Runs -/

/-- A tick that ran: the program before it and the outcome of the pass over that program. -/
structure Moment where
  program : Program
  outcome : Evaluation

namespace Moment

/-- The inputs that the pass gave to a node: those gathered from the visits before its own. Of the
node itself only its id and its kind count. -/
def inputs (m : Moment) (n : Node) : Slots :=
  (m.program.inputsOf ⟨m.outcome.visits.takeWhile (·.id != n.id)⟩ n).1

/-- The tick as the gate of a control node saw it. -/
def atGate (m : Moment) (n : Node) : GateTick where
  on := Node.gateOn (m.inputs n)
  signal := Node.signal (m.inputs n)
  shown := (m.outcome.value? n.id).getD Number.nan
  held := m.outcome.held? n.id

end Moment

namespace Program

/-- The second program is the first one after ticks that all ran, each by some engine and in some
context, the first first. -/
inductive Ticked (p : Program) : List Moment → Program → Prop where
  | start : Ticked p [] p
  | tick {moments : List Moment} {q : Program} (h : Ticked p moments q) (e : Engine) (id : String)
      (ctx : Context) {outcome : Evaluation} (hok : (e.advance q id ctx).1 = .ok outcome) :
      Ticked p (moments ++ [⟨q, outcome⟩]) (e.advance q id ctx).2

theorem Ticked.sameGraph {p q : Program} {moments : List Moment} (h : p.Ticked moments q) :
    p.SameGraph q := by
  induction h with
  | start => exact ⟨rfl, rfl⟩
  | tick _ e id ctx _ ih => exact ih.trans (sameGraph_advance e _ id ctx)

/-- A program whose nodes can be ordered can be ticked again and again, always in that order. -/
theorem Ticked.again {p q : Program} {moments : List Moment} {order : List String}
    (h : p.Ticked moments q) (horder : p.order? (p.nodes.map (·.id)) = .ok order) (e : Engine)
    (id : String) (ctx : Context) :
    p.Ticked (moments ++ [⟨q, q.visitAll ctx (order.filterMap q.node?)⟩])
      (e.advance q id ctx).2 := by
  have hpass : q.evaluateAll ctx = .ok (q.visitAll ctx (order.filterMap q.node?)) := by
    rw [evaluateAll, pass, h.sameGraph.order?_eq, horder]
  refine h.tick e id ctx ?_
  rw [Engine.advance, hpass]

/-- The program holds the node as the ticks of its gate left it. -/
def Remembers (q : Program) (n : Node) (history : List GateTick) : Prop :=
  ∃ entries r, r.last? = Hold.lastShown n.previousValue? history ∧
    n.withRecords entries r (Hold.lastHeld history) ∈ q.nodes

variable {p q : Program} {n : Node} {op : Hold} {history : List GateTick} {moments : List Moment}

/-- A tick steps the gate from what the program remembers of it, and the program remembers the
outcome. -/
theorem Remembers.advance (h : q.Remembers n history) (hkind : n.kind = .control)
    (hop : n.hold? = some op) {e : Engine} {id : String} {ctx : Context} {outcome : Evaluation}
    (hok : (e.advance q id ctx).1 = .ok outcome) :
    let g := (Moment.mk q outcome).atGate n
    outcome.value? n.id = some g.shown ∧
      (g.shown, g.held) = op.step g.on g.signal (Hold.lastHeld history)
        (Hold.lastShown n.previousValue? history) ∧
      (e.advance q id ctx).2.Remembers n (history ++ [g]) := by
  intro g
  obtain ⟨entries, r, hlast, hmem⟩ := h
  obtain ⟨hpass, entries', hnodes⟩ := Engine.nodes_of_advance hok
  have hinputs : (Moment.mk q outcome).inputs n = q.inputsUnder outcome.outputs?
      (n.withRecords entries r (Hold.lastHeld history)) :=
    congrArg Prod.fst ((selects_all q).inputsOf_takeWhile hpass hmem (hasNode_of_mem hmem))
  have hgate : Node.gateStep (n.withRecords entries r (Hold.lastHeld history))
      ((Moment.mk q outcome).inputs n)
      = op.step g.on g.signal (Hold.lastHeld history) (Hold.lastShown n.previousValue? history) := by
    rw [Node.gateStep_of_hold ((n.hold?_withRecords _ _ _).trans hop), Node.heldValue_withRecords,
      Node.previousValue?_withRecords, hlast]
    rfl
  obtain ⟨hvalue, hheld⟩ := gate_of_evaluateAll hpass hmem ((n.kind_withRecords _ _ _).trans hkind)
  rw [Node.id_withRecords, ← hinputs, hgate] at hvalue hheld
  have hshown : outcome.value? n.id = some g.shown := by
    change _ = some ((outcome.value? n.id).getD Number.nan)
    rw [hvalue, Option.getD_some]
  refine ⟨hshown, Prod.ext (Option.some.inj (hshown.symm.trans hvalue)) hheld, ?_⟩
  rw [Remembers, hnodes]
  refine ⟨entries' (n.withRecords entries r (Hold.lastHeld history)), e.sampled r g.shown, ?_,
    List.mem_map.mpr ⟨_, hmem, ?_⟩⟩
  · rw [e.last?_sampled, Hold.lastShown_concat]
  · rw [Hold.lastHeld_concat]
    rfl

/-- After every run the program remembers the ticks of the gate, and each of them was as promised. -/
theorem Ticked.remembers (h : p.Ticked moments q) (hn : n ∈ p.nodes) (hkind : n.kind = .control)
    (hop : n.hold? = some op) (hheld : n.data.heldValue = none) :
    q.Remembers n (moments.map (·.atGate n)) ∧
    op.Latched n.previousValue? (moments.map (·.atGate n)) ∧
    ∀ before m after, moments = before ++ m :: after →
      m.outcome.value? n.id = some (m.atGate n).shown ∧
        op.Shows n.previousValue? (before.map (·.atGate n)) (m.atGate n) := by
  induction h with
  | start =>
    refine ⟨⟨n.data.tickEntries, n.data.recentValues, rfl, ?_⟩, Hold.latched_nil _ _, ?_⟩
    · have hstart : n.withRecords n.data.tickEntries n.data.recentValues none = n := by
        rw [Node.withRecords, ← hheld]
      exact hstart.symm ▸ hn
    · intro before m after hsplit
      exact absurd hsplit (by simp)
  | @tick moments q _ e id ctx outcome hok ih =>
    obtain ⟨hremembers, hlatched, hshows⟩ := ih
    obtain ⟨hvalue, hstep, hafter⟩ := hremembers.advance hkind hop hok
    obtain ⟨hshown, hnext⟩ := hlatched.shows hstep
    rw [List.map_append, List.map_singleton]
    refine ⟨hafter, hnext, fun before m after hsplit => ?_⟩
    rcases split_concat hsplit with ⟨rfl, rfl, -⟩ | ⟨mid, -, hmid⟩
    · exact ⟨hvalue, hshown⟩
    · exact hshows before m mid hmid

/-- **A gate latches over a whole run.** At every tick of a run, a control node with an operator, which
held nothing at first, shows its signal while its gate is off, and while it is on what the operator
promises of the stretch up to that tick. -/
theorem gate_latches (h : p.Ticked moments q) (hn : n ∈ p.nodes) (hkind : n.kind = .control)
    (hop : n.hold? = some op) (hheld : n.data.heldValue = none) {before after : List Moment}
    {m : Moment} (hsplit : moments = before ++ m :: after) :
    m.outcome.value? n.id = some (m.atGate n).shown ∧
      op.Shows n.previousValue? (before.map (·.atGate n)) (m.atGate n) :=
  (h.remembers hn hkind hop hheld).2.2 before m after hsplit

/-- A gate on its prior value. -/
def priorGate : Node where
  toNodeDefinition :=
    (NodeDefinition.ofType "h" "Control").withProperty "controlOperator" (.string "Hold Prior")
  kind := .control

/-- The gate between two sensors. -/
def gatedSensor : Program where
  id := none
  nodes := [⟨.ofType "g" "Sensor", .sensor⟩, ⟨.ofType "s" "Sensor", .sensor⟩, priorGate]
  connections := [⟨"1", "g", "value", "h", "num1"⟩, ⟨"2", "s", "value", "h", "num2"⟩]
  recentTicks := []
  nodes_nodup := by decide
  connections_nodup := by decide

/-- The signal is 3 before the gate goes on; then it is 5, it is missing, it is 8, and the gate still
shows 3. -/
theorem gatedSensor_latches :
    ∃ before m q, gatedSensor.Ticked (before ++ [m]) q ∧
      (before ++ [m]).map (fun m => (m.atGate priorGate).on) = [false, true, true, true] ∧
      (before ++ [m]).map (fun m => (m.atGate priorGate).signal) = [3.0, 5.0, Number.nan, 8.0] ∧
      Hold.prior.Shows none (before.map (·.atGate priorGate)) (m.atGate priorGate) ∧
      m.outcome.value? "h" = some 3.0 := by
  have horder : gatedSensor.order? (gatedSensor.nodes.map (·.id)) = .ok ["g", "s", "h"] := rfl
  let off : Context := Context.withReading ⟨0, ∅⟩ "g" 0.0
  let on : Context := Context.withReading ⟨0, ∅⟩ "g" 1.0
  have h₁ := Ticked.start.again horder {} "1" (off.withReading "s" 3.0)
  have h₂ := h₁.again horder {} "2" (on.withReading "s" 5.0)
  have h₃ := h₂.again horder {} "3" on
  have h₄ := h₃.again horder {} "4" (on.withReading "s" 8.0)
  have hgate : priorGate ∈ gatedSensor.nodes := by simp [gatedSensor]
  have hop : priorGate.hold? = some .prior := rfl
  obtain ⟨hvalue, hshows⟩ := gate_latches h₄ hgate rfl hop rfl rfl
  refine ⟨_, _, _, h₄, by decide +kernel, by decide +kernel, hshows, hvalue.trans ?_⟩
  have hshown : _ = Hold.valueBefore _ _ := hshows.on (by decide +kernel)
  rw [hshown]
  decide +kernel

end Program

end Dataflow
