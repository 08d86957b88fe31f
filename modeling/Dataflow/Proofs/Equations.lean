import Dataflow.Proofs.Inputs
import Dataflow.Proofs.Schedule
/-!
# The equations that a pass solves

A pass computes node after node and looks sources up among what is there already. Main statement:
what it shows in the end is the one solution of the equations that give each node's outputs from its
inputs and each input from the connection that decides it (`evaluate_solves`).

Three steps lead there. A visit finds every existing source of its node among the visits before it
(`Selects.visit_split`); what it found there is what the pass shows in the end
(`Selects.visit_eq_visitUnder`); and two solutions agree on a node as soon as they agree on its
sources, so they agree everywhere by induction along the schedule (`IsSolution.unique`).
-/
set_option autoImplicit false

namespace Dataflow.Program

/-! ## The equations -/

/-- `out` and `held` are what the nodes of `S` compute from the inputs that `out` gives them. -/
structure IsSolution (p : Program) (ctx : Context) (S : String → Prop) (out : String → Option Slots)
    (held : String → Option Float) : Prop where
  outputs : ∀ n ∈ p.nodes, S n.id → out n.id = some (n.outputs (p.inputsUnder out n) ctx)
  held : ∀ n ∈ p.nodes, S n.id → held n.id = n.held? (p.inputsUnder out n)

/-- The visit of a node when the nodes show `out`. -/
def visitUnder (p : Program) (ctx : Context) (out : String → Option Slots) (n : Node) : Visit where
  id := n.id
  outputs := n.outputs (p.inputsUnder out n) ctx
  held := n.held? (p.inputsUnder out n)
  warnings := (p.incoming n.id).filterMap (p.fault? n.id n.kind) ++ p.looseEnds n.id

theorem visitUnder_congr {p : Program} {ctx : Context} {out out' : String → Option Slots} {n : Node}
    (h : ∀ c ∈ p.incoming n.id, p.hasNode c.source → out c.source = out' c.source) :
    p.visitUnder ctx out n = p.visitUnder ctx out' n := by
  simp only [visitUnder, inputsUnder_congr h]

variable {p : Program} {ctx : Context} {members : List String} {S : String → Prop} {e : Evaluation}

/-! ## Visits of a pass -/

/-- A visit is that of its node after the visits before it, and these hold every existing source of
a connection into the node. -/
theorem Selects.visit_split (h : p.Selects members S) (hpass : p.pass ctx members = .ok e)
    {pre post : List Visit} {v : Visit} (hsplit : e.visits = pre ++ v :: post) :
    ∃ n ∈ p.nodes, n.id = v.id ∧ v = p.visit ctx ⟨pre⟩ n ∧
      ∀ c ∈ p.incoming n.id, p.hasNode c.source → c.source ∈ (Evaluation.mk pre).order := by
  have hschedule := h.schedule hpass
  obtain ⟨order, -, rfl⟩ := pass_eq_ok_iff.mp hpass
  obtain ⟨n, hn, hid, hv⟩ := visitAll_split hsplit
  refine ⟨n, (mem_filterMap_node?.mp hn).1, hid, hv, fun c hc hs => ?_⟩
  obtain ⟨hmem, htarget⟩ := mem_incoming.mp hc
  refine hschedule.before (pre.map (·.id)) v.id (post.map (·.id)) ?_ c hmem (htarget.trans hid) hs
  rw [Evaluation.order, hsplit, List.map_append, List.map_cons]

/-- At any moment of a pass the nodes visited so far show a value on each of their outputs. -/
theorem Selects.shown (h : p.Selects members S) (hpass : p.pass ctx members = .ok e)
    {pre post : List Visit} (hsplit : e.visits = pre ++ post) {id : String}
    (hid : id ∈ (Evaluation.mk pre).order) : p.Shown (Evaluation.mk pre).outputs? id := by
  intro s hs
  obtain ⟨v, hv, rfl⟩ := Evaluation.mem_order.mp hid
  obtain ⟨before, after, hpre⟩ := List.append_of_mem hv
  have hnodup : (Evaluation.mk pre).order.Nodup := by
    have hall := (h.schedule hpass).nodup
    rw [Evaluation.order, hsplit, List.map_append] at hall
    exact (List.nodup_append.mp hall).1
  have hwhole : e.visits = before ++ v :: (after ++ post) := by
    have happend : pre = before ++ v :: after := hpre
    rw [hsplit, happend, List.append_assoc, List.cons_append]
  -- The visit found under the id is that of the node of the id, and a node fills its outputs.
  obtain ⟨n, hn, hnid, hvisit, -⟩ := h.visit_split hpass hwhole
  have hsn : s = n := by
    have hfind := node?_of_mem hn
    rw [hnid, hs] at hfind
    exact Option.some.inj hfind
  refine ⟨v.outputs, ?_, ?_, ?_⟩
  · rw [Evaluation.outputs?, Evaluation.visit?_of_split hnodup hpre, Option.map_some]
  · rw [hvisit, hsn]
    exact n.pins_outputs _ _
  · rw [hvisit]
    exact n.filled_outputs _ _

/-- The inputs gathered for a visit are those under what the pass shows in the end. -/
theorem Selects.inputsOf_split (h : p.Selects members S) (hpass : p.pass ctx members = .ok e)
    {n : Node} (hn : n ∈ p.nodes) {pre post : List Visit} {v : Visit}
    (hsplit : e.visits = pre ++ v :: post) (hid : v.id = n.id) :
    p.inputsOf ⟨pre⟩ n
      = (p.inputsUnder e.outputs? n, (p.incoming n.id).filterMap (p.fault? n.id n.kind)) := by
  obtain ⟨m, hm, hmid, -, hsources⟩ := h.visit_split hpass hsplit
  obtain rfl : m = n := List.inj_on_of_nodup_map p.nodes_nodup hm hn (hmid.trans hid)
  have hshown : ∀ c ∈ p.incoming m.id, p.Shown (Evaluation.mk pre).outputs? c.source := by
    intro c hc s hs
    exact h.shown hpass hsplit (hsources c hc (hasNode_of_node? hs)) s hs
  rw [inputsOf_eq hshown, inputsUnder_congr fun c hc hs => Evaluation.outputs?_congr ?_]
  -- The sources were visited already, so what follows leaves what they show as it is.
  have hwhole : e = ⟨pre ++ v :: post⟩ := congrArg Evaluation.mk hsplit
  rw [hwhole]
  exact (Evaluation.visit?_append_left (hsources c hc hs)).symm

/-- The same, with the visits before that of a node given by its id. -/
theorem Selects.inputsOf_takeWhile (h : p.Selects members S) (hpass : p.pass ctx members = .ok e)
    {n : Node} (hn : n ∈ p.nodes) (hS : S n.id) :
    p.inputsOf ⟨e.visits.takeWhile (·.id != n.id)⟩ n
      = (p.inputsUnder e.outputs? n, (p.incoming n.id).filterMap (p.fault? n.id n.kind)) := by
  have hschedule := h.schedule hpass
  obtain ⟨v, hv, hid⟩ := Evaluation.mem_order.mp ((hschedule.mem_iff n.id).mpr hS)
  obtain ⟨pre, post, hsplit⟩ := List.append_of_mem hv
  have hbefore := Evaluation.takeWhile_of_split hschedule.nodup hsplit
  rw [hid] at hbefore
  rw [hbefore, h.inputsOf_split hpass hn hsplit hid]

/-- **A visit is what its node computes from what the pass shows in the end.** -/
theorem Selects.visit_eq_visitUnder (h : p.Selects members S) (hpass : p.pass ctx members = .ok e)
    {v : Visit} (hv : v ∈ e.visits) :
    ∃ n ∈ p.nodes, n.id = v.id ∧ v = p.visitUnder ctx e.outputs? n := by
  obtain ⟨pre, post, hsplit⟩ := List.append_of_mem hv
  obtain ⟨n, hn, hid, hvisit, -⟩ := h.visit_split hpass hsplit
  refine ⟨n, hn, hid, hvisit.trans ?_⟩
  rw [visit, h.inputsOf_split hpass hn hsplit hid.symm]
  rfl

theorem Selects.visit?_of_mem (h : p.Selects members S) (hpass : p.pass ctx members = .ok e)
    {n : Node} (hn : n ∈ p.nodes) (hS : S n.id) :
    e.visit? n.id = some (p.visitUnder ctx e.outputs? n) := by
  have hschedule := h.schedule hpass
  obtain ⟨v, hv, hid⟩ := Evaluation.mem_order.mp ((hschedule.mem_iff n.id).mpr hS)
  obtain ⟨m, hm, hmid, heq⟩ := h.visit_eq_visitUnder hpass hv
  obtain ⟨pre, post, hsplit⟩ := List.append_of_mem hv
  have hmn : m = n := List.inj_on_of_nodup_map p.nodes_nodup hm hn (hmid.trans hid)
  rw [← hid, Evaluation.visit?_of_split hschedule.nodup hsplit, heq, hmn]

/-! ## The solution -/

theorem Selects.isSolution (h : p.Selects members S) (hpass : p.pass ctx members = .ok e) :
    p.IsSolution ctx S e.outputs? e.held? where
  outputs := fun n hn hS => by
    conv => lhs; rw [Evaluation.outputs?, h.visit?_of_mem hpass hn hS]
    rfl
  held := fun n hn hS => by
    rw [Evaluation.held?, h.visit?_of_mem hpass hn hS]
    rfl

/-- **The equations of a closed selection that can be scheduled have at most one solution.** -/
theorem IsSolution.unique {order : List String} (h : p.Selects members S)
    (hschedule : p.IsSchedule S order) {out out' : String → Option Slots}
    {held held' : String → Option Float} (hout : p.IsSolution ctx S out held)
    (hout' : p.IsSolution ctx S out' held') :
    ∀ id, S id → out id = out' id ∧ held id = held' id := by
  refine hschedule.induction fun u hu ih => ?_
  obtain ⟨n, hfind⟩ := exists_node? (h.hasNode hu)
  obtain ⟨hn, rfl⟩ := mem_of_node? hfind
  -- Two solutions that agree at the sources give the node the same inputs.
  have hinputs : p.inputsUnder out n = p.inputsUnder out' n := by
    refine inputsUnder_congr fun c hc hs => ?_
    obtain ⟨hmem, htarget⟩ := mem_incoming.mp hc
    have hlink := h.mem_links.mpr ⟨hmem, h.source hmem hs (htarget ▸ hu), htarget ▸ hu⟩
    exact (ih c.source (h.feedsWithin_iff.mpr ⟨c, hlink, rfl, htarget⟩)).1
  rw [hout.outputs n hn hu, hout'.outputs n hn hu, hout.held n hn hu, hout'.held n hn hu, hinputs]
  exact ⟨rfl, rfl⟩

/-- What a pass over the nodes of `S` shows is the one solution of their equations, and the pass
never needs a value that it has not computed. -/
structure Solves (p : Program) (ctx : Context) (S : String → Prop) (e : Evaluation) : Prop where
  /-- Exactly the nodes of `S` show something. -/
  shows_iff : ∀ id, (e.outputs? id).isSome ↔ S id
  solution : p.IsSolution ctx S e.outputs? e.held?
  unique : ∀ out held, p.IsSolution ctx S out held →
    ∀ id, S id → out id = e.outputs? id ∧ held id = e.held? id
  /-- An input that a connection decides is set. -/
  delivered : ∀ n ∈ p.nodes, S n.id → ∀ pin ∈ n.kind.inputs, ∀ c,
    p.decidingConnection? n.id pin.name = some c → (offered e.outputs? pin.type c).isSome
  /-- A visit saw the visits before it, and these show every existing source of its node. -/
  computed : ∀ pre v post, e.visits = pre ++ v :: post →
    ∃ n ∈ p.nodes, n.id = v.id ∧ v = p.visit ctx ⟨pre⟩ n ∧
      ∀ c ∈ p.incoming n.id, p.hasNode c.source → ((Evaluation.mk pre).outputs? c.source).isSome

theorem isSome_outputs?_iff (e : Evaluation) (id : String) :
    (e.outputs? id).isSome ↔ id ∈ e.order := by
  rw [Evaluation.outputs?, Option.isSome_map, ← Option.ne_none_iff_isSome, ne_eq,
    Evaluation.visit?_eq_none_iff, not_not]

theorem Selects.solves (h : p.Selects members S) (hpass : p.pass ctx members = .ok e) :
    p.Solves ctx S e where
  shows_iff := fun id => (isSome_outputs?_iff e id).trans ((h.schedule hpass).mem_iff id)
  solution := h.isSolution hpass
  unique := fun _ _ hout => hout.unique h (h.schedule hpass) (h.isSolution hpass)
  delivered := fun n _ hS pin hpin c hdecides => by
    obtain ⟨hc, -, hdelivers⟩ := decidingConnection?_spec hdecides
    obtain ⟨hmem, htarget⟩ := mem_incoming.mp hc
    have hsource := h.source hmem (hasNode_of_delivers hdelivers) (htarget ▸ hS)
    have hshown := h.shown hpass (List.append_nil e.visits).symm
      (((h.schedule hpass).mem_iff c.source).mpr hsource)
    obtain ⟨v, hv, hfits⟩ := hshown.offered hdelivers
    simp only [offered, hv, Option.bind_some]
    exact hfits n.kind pin hpin
  computed := fun pre v post hsplit => by
    obtain ⟨n, hn, hid, hv, hsources⟩ := h.visit_split hpass hsplit
    exact ⟨n, hn, hid, hv, fun c hc hs => (isSome_outputs?_iff _ _).mpr (hsources c hc hs)⟩

/-- **What a pass computes is the unique solution of the dataflow equations of its nodes**, for one
node and what feeds it and for the whole program. -/
theorem evaluate_solves (p : Program) (ctx : Context) :
    (∀ t e, p.evaluate ctx t = .ok e → p.Solves ctx (p.Supplies · t) e) ∧
    ∀ e, p.evaluateAll ctx = .ok e → p.Solves ctx (p.hasNode ·) e := by
  refine ⟨fun t e he => ?_, fun e => (selects_all p).solves⟩
  have ht := hasNode_of_evaluate he
  rw [evaluate_eq_pass ht] at he
  exact (selects_suppliers ht).solves he

theorem adder_evaluate_sum (ctx : Context) :
    adder.evaluate ctx "s" = .ok (adder.visitAll ctx (["n", "m", "s"].filterMap adder.node?)) := by
  rfl

theorem adder_evaluateAll (ctx : Context) :
    adder.evaluateAll ctx
      = .ok (adder.visitAll ctx (["n", "m", "r", "s"].filterMap adder.node?)) := by
  rfl

/-- The second operand of the sum comes over the last connection whose source exists, and the sum
solves its equations in a pass of its own as in one over all nodes. -/
theorem adder_solves :
    adder.decidingConnection? "s" "num2" = some ⟨"3", "n", "value", "s", "num2"⟩ ∧
      (∃ e, adder.evaluate ⟨0, ∅⟩ "s" = .ok e ∧
        adder.Solves ⟨0, ∅⟩ (adder.Supplies · "s") e) ∧
      ∃ e, adder.evaluateAll ⟨0, ∅⟩ = .ok e ∧ adder.Solves ⟨0, ∅⟩ (adder.hasNode ·) e := by
  obtain ⟨hone, hall⟩ := evaluate_solves adder ⟨0, ∅⟩
  exact ⟨by decide, ⟨_, adder_evaluate_sum _, hone "s" _ (adder_evaluate_sum _)⟩,
    _, adder_evaluateAll _, hall _ (adder_evaluateAll _)⟩

end Dataflow.Program
