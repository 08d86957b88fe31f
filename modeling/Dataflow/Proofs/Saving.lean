import Dataflow.Proofs.Alike
import Dataflow.Proofs.Reload
/-!
# Saving a program and going on

A program that is saved and loaded again has lost what a document cannot hold: that a sample was
infinite, and what a gate held when it was not finite. Main statements: a program that was read from a
text and ticked can be saved and loaded, and where nothing is lost that a gate will look at, it goes
on as if it had never been saved (`Engine.reload_recordsSame`). `Node.Savable` says where that is, and
it is exact (`Node.Alike.savable`).
-/
set_option autoImplicit false

namespace Dataflow

/-! ## What a document loses -/

theorem Number.stored_of_not_isInf {x : Float} (h : x.isInf = false) : stored x = x := by
  rw [stored]
  cases hfinite : x.isFinite with
  | true => rfl
  | false =>
    have hnan : x.toModel.unpack = .notANumber := by
      by_contra hne
      exact absurd ((Binary64.isFinite_iff x).mpr ⟨hne, h⟩) (by simp [hfinite])
    rw [if_neg (by simp)]
    exact Binary64.eq_of_unpack_eq hnan.symm

namespace RecentValues

theorem last?_stored (r : RecentValues) : r.stored.last? = r.last?.map Number.stored :=
  List.getLast?_map

end RecentValues

/-- A ramp looks only at a value that is finite. -/
theorem Transform.apply_stored (op : Transform) (x : Float) (previous : Option Float) :
    op.apply x (previous.map Number.stored) = op.apply x previous := by
  cases op with
  | ramp =>
    cases previous with
    | none => rfl
    | some y =>
      rw [Option.map_some, apply, apply, Number.stored]
      cases hy : y.isFinite with
      | true => rfl
      | false =>
        rw [if_neg (by simp), rampStep, rampStep, hy]
        rfl
  | _ => rfl

namespace Hold

variable {on : Bool} {signal : Float} {held previous : Option Float}

theorem step_zero (held' previous' : Option Float) :
    zero.step on signal held' previous' = zero.step on signal held previous := by
  cases on <;> rfl

theorem step_current (previous' : Option Float) :
    current.step on signal held previous' = current.step on signal held previous := by
  cases on <;> rfl

/-- What is held does not matter where it is the previous value. -/
theorem step_prior (h : ∀ x, held = some x → x.isFinite = false → previous = some x) :
    prior.step on signal (held.filter (·.isFinite)) previous
      = prior.step on signal held previous := by
  have hlatched : (held.filter (·.isFinite)).or previous = held.or previous := by
    cases held with
    | none => rfl
    | some x =>
      cases hx : x.isFinite with
      | true => rw [Option.filter_some, hx, if_pos rfl]
      | false =>
        rw [Option.filter_some, hx, h x rfl hx]
        rfl
  cases on with
  | false => rfl
  | true =>
    rw [step, step]
    cases signal.isNaN with
    | true => rfl
    | false => simp only [if_true, Bool.false_eq_true, if_false, hlatched]

end Hold

namespace Node

/-- What the node holds though no document can hold it is the value it showed last. -/
def HoldsShown (n : Node) : Prop :=
  n.hold? = some .prior → ∀ x, n.data.heldValue = some x → x.isFinite = false →
    n.previousValue? = some x

/-- Nothing that the node will look at is lost in a document: what a gate on its current value holds
is finite, and what a gate on its prior value showed last is not infinite. -/
structure Savable (n : Node) : Prop where
  current : n.kind = .control → n.hold? = some .current →
    ∀ x ∈ n.data.heldValue, x.isFinite = true
  prior : n.kind = .control → n.hold? = some .prior →
    ∀ x ∈ n.previousValue?, x.isInf = false

instance (n : Node) : Decidable n.Savable :=
  decidable_of_iff
    ((n.kind = .control → n.hold? = some .current → ∀ x ∈ n.data.heldValue, x.isFinite = true) ∧
      (n.kind = .control → n.hold? = some .prior → ∀ x ∈ n.previousValue?, x.isInf = false))
    ⟨fun h => ⟨h.1, h.2⟩, fun h => ⟨h.current, h.prior⟩⟩

/-- The node as the engine loads it after it was saved. -/
def reloaded (n : Node) (e : Engine) : Node :=
  { n with data := e.resize n.data.stored }

theorem previousValue?_reloaded (n : Node) (e : Engine) :
    (n.reloaded e).previousValue? = n.previousValue?.map Number.stored := by
  change (e.resize n.data.stored).recentValues.last? = n.data.recentValues.last?.map Number.stored
  rw [Engine.resize, RecentValues.last?_setCapacity, NodeData.stored, RecentValues.last?_stored]

theorem heldValue_reloaded (n : Node) (e : Engine) :
    (n.reloaded e).data.heldValue = n.data.heldValue.filter (·.isFinite) := rfl

theorem hold?_reloaded (n : Node) (e : Engine) : (n.reloaded e).hold? = n.hold? := rfl

theorem transform?_reloaded (n : Node) (e : Engine) : (n.reloaded e).transform? = n.transform? := rfl

/-- **A node that can be saved computes the same after it was loaded again.** -/
theorem Savable.alike_reloaded {n : Node} (hsavable : n.Savable) (hshown : n.HoldsShown) (e : Engine) :
    n.Alike (n.reloaded e) := by
  refine alike_withHistory _ _ (fun _ inputs => ?_) fun hcontrol inputs => ?_
  · change (n.reloaded e).transformValue inputs = _
    rw [transformValue, transformValue, previousValue?_reloaded, transform?_reloaded]
    simp only [Transform.apply_stored]
  · change (n.reloaded e).gateStep inputs = _
    rw [gateStep, gateStep, previousValue?_reloaded, heldValue_reloaded, hold?_reloaded]
    cases hop : n.hold? with
    | none => rfl
    | some op =>
      cases op with
      | zero => exact Hold.step_zero _ _
      | current =>
        dsimp only
        rw [filter_isFinite (hsavable.current hcontrol hop)]
        exact Hold.step_current _
      | prior =>
        have hsame : n.previousValue?.map Number.stored = n.previousValue? := by
          cases hlast : n.previousValue? with
          | none => rfl
          | some x =>
            rw [Option.map_some, Number.stored_of_not_isInf (hsavable.prior hcontrol hop x hlast)]
        dsimp only
        rw [hsame]
        exact Hold.step_prior (hshown hop)

/-- The inputs of a control node whose gate is on. -/
def inputsWhileOn (signal : Float) : Slots :=
  [⟨⟨"num1", .number⟩, some (.number 1.0)⟩, ⟨⟨"num2", .number⟩, some (.number signal)⟩]

theorem held?_whileOn {n : Node} {op : Hold} (hkind : n.kind = .control) (hop : n.hold? = some op)
    (signal : Float) : n.held? (inputsWhileOn signal)
      = (op.step true signal n.data.heldValue n.previousValue?).2 := by
  have hon : gateOn (inputsWhileOn signal) = true := by
    change ((1.0 : Float) == 1.0) = true
    decide +kernel
  rw [Node.held?, hkind, gateStep, hop]
  dsimp only
  rw [hon]
  rfl

theorem Alike.latched_eq {n : Node} {e : Engine} {op : Hold} (h : n.Alike (n.reloaded e))
    (hkind : n.kind = .control) (hop : n.hold? = some op) (signal : Float) :
    (op.step true signal (n.data.heldValue.filter (·.isFinite))
        (n.previousValue?.map Number.stored)).2
      = (op.step true signal n.data.heldValue n.previousValue?).2 := by
  have hafter := held?_whileOn (n := n.reloaded e) hkind hop signal
  rw [← held?_whileOn hkind hop, ← h.held?, hafter, previousValue?_reloaded, heldValue_reloaded]

/-- **The condition is exact.** A node that cannot be saved computes something else from some inputs
after it was loaded again. -/
theorem Alike.savable {n : Node} {e : Engine} (h : n.Alike (n.reloaded e)) : n.Savable := by
  refine ⟨fun hkind hop x hx => ?_, fun hkind hop x hx => ?_⟩
  · -- While the signal is zero, a gate that holds nothing latches zero.
    have hlatched := h.latched_eq hkind hop 0.0
    rw [hx, Option.filter_some] at hlatched
    cases hfinite : x.isFinite with
    | true => rfl
    | false =>
      rw [hfinite] at hlatched
      have hzero : 0.0 = x := Option.some.inj hlatched
      rw [← hzero] at hfinite
      exact absurd hfinite (by decide +kernel)
  · -- While the signal is no number, the gate latches the value before.
    have hlatched := h.latched_eq hkind hop Number.nan
    rw [hx] at hlatched
    have hsame : Number.stored x = x := Option.some.inj hlatched
    cases hinf : x.isInf with
    | false => rfl
    | true =>
      have hfinite : x.isFinite ≠ true := fun htrue =>
        absurd hinf (by simp [((Binary64.isFinite_iff x).mp htrue).2])
      rw [Number.stored, if_neg hfinite] at hsame
      rw [← hsame] at hinf
      exact absurd hinf (by decide +kernel)

end Node

/-! ## What gates hold -/

/-- A gate on its prior value shows what it holds. -/
theorem Node.value_of_gateStep {n : Node} (hop : n.hold? = some .prior) {inputs : Slots} {x : Float}
    (h : (n.gateStep inputs).2 = some x) : (n.gateStep inputs).1 = x := by
  rw [gateStep_of_hold hop, Hold.step] at h ⊢
  cases hon : gateOn inputs with
  | false => exact absurd h (by simp [hon])
  | true =>
    simp only [hon, if_true] at h ⊢
    rw [h, Option.getD_some]

/-- A pass shows what a gate on its prior value holds after it. -/
theorem Program.value?_of_held? {p : Program} {ctx : Context} {outcome : Evaluation}
    (hpass : p.evaluateAll ctx = .ok outcome) {n : Node} (hn : n ∈ p.nodes)
    (hop : n.hold? = some .prior) {x : Float} (h : outcome.held? n.id = some x) :
    outcome.value? n.id = some x := by
  by_cases hkind : n.kind = .control
  · obtain ⟨hvalue, hheld⟩ := gate_of_evaluateAll hpass hn hkind
    rw [hvalue, Node.value_of_gateStep hop (hheld.symm.trans h)]
  · exact absurd h (by simp [held?_of_evaluateAll hpass hn hkind])

theorem Program.holdsShown_of_ticksTo {p q : Program} (h : Relation.ReflTransGen TicksTo p q)
    (hp : ∀ n ∈ p.nodes, n.HoldsShown) : ∀ n ∈ q.nodes, n.HoldsShown := by
  induction h with
  | refl => exact hp
  | tail _ hstep ih =>
    obtain ⟨e, tick, ctx, rfl⟩ := hstep
    intro m hm
    rcases Engine.mem_nodes_advance hm with hold | ⟨outcome, n, x, hpass, hn, hx, heq⟩
    · exact ih m hold
    · intro hop y hy _
      have hop' : n.hold? = some .prior := by
        rw [heq] at hop
        exact hop
      rw [heq] at hy ⊢
      have hvalue := Program.value?_of_held? hpass hn hop' hy
      rw [hx] at hvalue
      cases hvalue
      exact e.last?_sampled _ _

/-! ## Saving -/

namespace Engine

/-- **Saving is transparent where a document loses nothing.** A program that was read from a text and
ticked can be saved, and the engine loads what was saved; and unless a gate held or showed what no
document can hold, the loaded program records the same as the one that was never saved, whatever
ticks follow. -/
theorem reload_recordsSame (e : Engine) {text : String} {s : Snapshot} {p q : Program}
    (htext : Snapshot.ofText text = .ok s) (hload : e.loadSnapshot s = .ok p)
    (hticks : Relation.ReflTransGen Program.TicksTo p q) :
    ∃ s' q', Snapshot.ofText (Snapshot.ofProgram q).text = .ok s' ∧ e.loadSnapshot s' = .ok q' ∧
      ((∀ n ∈ q.nodes, n.Savable) → e.RecordsSame q q') := by
  have hstored := Snapshot.stored_of_ofText htext
  have hloaded := loaded_of_ticksTo hticks fun n hn => (loaded_of_loadSnapshot hstored hload hn).1
  have hshown : ∀ n ∈ q.nodes, n.HoldsShown := by
    refine Program.holdsShown_of_ticksTo hticks fun n hn _ x hx hfinite => ?_
    have hheld := (loaded_of_loadSnapshot hstored hload hn).2 x hx
    exact absurd (hheld.symm.trans hfinite) (by simp)
  obtain ⟨s', hs', hq'⟩ := reload hloaded
  refine ⟨s', _, hs', hq', fun hsavable => Program.Alike.recordsSame ?_ e⟩
  exact ⟨rfl, rfl, List.forall₂_map_right_iff.mpr (List.forall₂_same.mpr fun n hn =>
    (hsavable n hn).alike_reloaded (hshown n hn) e)⟩

end Engine

/-! ## A gate on its prior value -/

/-- A node with properties and no history. -/
def Node.ofKind (id : String) (kind : Kind) (properties : List (String × Json.Value)) : Node :=
  { NodeDefinition.ofType id kind.name with
    data := { typeName := kind.name, properties := properties }
    kind := kind }

theorem Engine.loaded_ofKind {id : String} {kind : Kind} {properties : List (String × Json.Value)}
    (hnodup : (properties.map (·.1)).Nodup)
    (hproperty : ∀ m ∈ properties, m.1 ∉ NodeData.fieldNames)
    (hfits : Json.MembersFit properties roomOfProperty) :
    ({} : Engine).Loaded (.ofKind id kind properties) := by
  have htyped : kind.name ≠ "" := by cases kind <;> decide
  have hresolves : Catalog.standard.resolve? kind.name = some kind := by
    cases kind <;> decide +kernel
  have hzero : (0.0 : Float).isFinite = true := by decide +kernel
  exact ⟨⟨htyped, hresolves⟩, hzero, hzero, ⟨hnodup, hproperty, hfits⟩⟩

/-- A timer that is off for a second and then on gates the product of a number and a factor; while it
is on, the gate shows the value before. -/
def Program.gated (factor : Int) : Program where
  id := none
  nodes := [
    .ofKind "a" .number [("value", .number (.float 1e308))],
    .ofKind "b" .number [("value", .number (.integer factor))],
    .ofKind "m" .math [("mathOperator", .string "Multiply")],
    .ofKind "t" .timer [("timeOn", .number (.integer 1)), ("timeOff", .number (.integer 1))],
    .ofKind "h" .control [("controlOperator", .string "Hold Prior")]]
  connections := [⟨"1", "a", "value", "m", "num1"⟩, ⟨"2", "b", "value", "m", "num2"⟩,
    ⟨"3", "t", "value", "h", "num1"⟩, ⟨"4", "m", "value", "h", "num2"⟩]
  recentTicks := []
  nodes_nodup := by
    change ["a", "b", "m", "t", "h"].Nodup
    decide
  connections_nodup := by decide

theorem Engine.loaded_gated {k : Int} (h : (Json.Number.integer k).Proper) :
    ∀ n ∈ (Program.gated k).nodes, ({} : Engine).Loaded n := by
  have hfinite : (1e308 : Float).isFinite = true := by decide +kernel
  have hone : (Json.Number.integer 1).Proper := ⟨by decide, by decide⟩
  refine List.forall_mem_cons.mpr ⟨loaded_ofKind (by decide) (by decide) ⟨hfinite, trivial⟩, ?_⟩
  refine List.forall_mem_cons.mpr ⟨loaded_ofKind (by simp) (by simp [NodeData.fieldNames]) ⟨h, trivial⟩, ?_⟩
  refine List.forall_mem_cons.mpr ⟨loaded_ofKind (by decide) (by decide) ⟨trivial, trivial⟩, ?_⟩
  refine List.forall_mem_cons.mpr ⟨loaded_ofKind (by decide) (by decide) ⟨hone, hone, trivial⟩, ?_⟩
  exact List.forall_mem_singleton.mpr (loaded_ofKind (by decide) (by decide) ⟨trivial, trivial⟩)

namespace Engine

/-- A finite product can be saved while the gate is off. -/
theorem gated_reload_recordsSame :
    ∃ s p s' q', Snapshot.ofText (Snapshot.ofProgram (.gated 1)).text = .ok s ∧
      ({} : Engine).loadSnapshot s = .ok p ∧
      let q := (({} : Engine).advance p "1" ⟨1000, ∅⟩).2
      (∀ n ∈ q.nodes, n.Savable) ∧ Snapshot.ofText (Snapshot.ofProgram q).text = .ok s' ∧
        ({} : Engine).loadSnapshot s' = .ok q' ∧ ({} : Engine).RecordsSame q q' := by
  obtain ⟨s, hs, hp⟩ := reload (loaded_gated (k := 1) ⟨by decide, by decide⟩)
  obtain ⟨s', q', hs', hq', hsame⟩ :=
    reload_recordsSame {} hs hp (.single ⟨{}, "1", ⟨1000, ∅⟩, rfl⟩)
  have hsavable : ∀ n ∈ (({} : Engine).advance ((Program.gated 1).mapData fun n =>
      ({} : Engine).resize n.data.stored) "1" ⟨1000, ∅⟩).2.nodes, n.Savable := by
    decide +kernel
  exact ⟨s, _, s', q', hs, hp, hsavable, hs', hq', hsame hsavable⟩

/-- **A gate on its prior value forgets that this was infinite.** While the gate is off it shows an
infinite product; on the next tick it shows that value again, but what is no number when the program
was saved and loaded in between. -/
theorem gated_infinity_not_saved :
    ∃ s p s' q', Snapshot.ofText (Snapshot.ofProgram (.gated 10)).text = .ok s ∧
      ({} : Engine).loadSnapshot s = .ok p ∧
      let q := (({} : Engine).advance p "1" ⟨1000, ∅⟩).2
      Snapshot.ofText (Snapshot.ofProgram q).text = .ok s' ∧
        ({} : Engine).loadSnapshot s' = .ok q' ∧
        (({} : Engine).advance q "2" ⟨2000, ∅⟩).2.currentValue? "h" = some "Infinity" ∧
        (({} : Engine).advance q' "2" ⟨2000, ∅⟩).2.currentValue? "h" = some "NaN" := by
  have hloaded := loaded_gated (k := 10) ⟨by decide, by decide⟩
  obtain ⟨s, hs, hp⟩ := reload hloaded
  have hp' := fun n hn => (loaded_of_loadSnapshot (Snapshot.stored_of_ofText hs) hp (n := n) hn).1
  obtain ⟨s', hs', hq'⟩ := reload (loaded_of_ticksTo (.single ⟨{}, "1", ⟨1000, ∅⟩, rfl⟩) hp')
  exact ⟨s, _, s', _, hs, hp, hs', hq', by decide +kernel, by decide +kernel⟩

end Engine

end Dataflow
