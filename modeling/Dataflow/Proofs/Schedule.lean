import Mathlib.Order.WellFoundedSet
import Dataflow.Proofs.Visits
/-!
# When a pass can run, and in which order

Main statement: a pass runs exactly when its selection has no directed cycle, and then it visits
every selected node once, each after all existing sources of its connections
(`evaluate_ok_iff_acyclic`).

One direction is a rank: an order that puts sources first leaves no way around a cycle. The other
is an induction along the paths of an acyclic selection, which is finite: a node whose sources are
all released waits for nothing, and the run ends with an empty queue, so it was released too.
-/
set_option autoImplicit false

namespace Dataflow.Program

/-- `order` lists the nodes of `S`, each once and each after all existing sources of the connections
into it. -/
structure IsSchedule (p : Program) (S : String → Prop) (order : List String) : Prop where
  nodup : order.Nodup
  mem_iff : ∀ id, id ∈ order ↔ S id
  before : ∀ pre u post, order = pre ++ u :: post →
    ∀ c ∈ p.connections, c.target = u → p.hasNode c.source → c.source ∈ pre

variable {p : Program} {members order : List String} {S : String → Prop}

/-! ## The order of a selection -/

theorem order?_eq_ok_iff :
    p.order? members = .ok order ↔
      (p.lastRelease members).order.length = members.length ∧
        (p.lastRelease members).order = order := by
  unfold order?
  dsimp only
  split
  · rename_i hlength
    simp [hlength]
  · rename_i hlength
    simp [hlength]

theorem Selects.ok_lastRelease (h : p.Selects members S) :
    Release.Ok members (p.links members) (p.lastRelease members) :=
  (Release.Ok.start h.nodup).run h.inside _

/-- At the end a selected node is released as soon as the sources of all its connections are. -/
theorem Selects.mem_order_of_sources (h : p.Selects members S) {id : String} (hid : S id)
    (hsources : ∀ a, p.FeedsWithin S a id → a ∈ (p.lastRelease members).order) :
    id ∈ (p.lastRelease members).order := by
  have hok := h.ok_lastRelease
  have hqueue : (p.lastRelease members).queue = [] := Release.queue_run_start h.inside h.nodup
  have hwaiting : (p.lastRelease members).waiting id = 0 := by
    rw [hok.waiting_eq, List.countP_eq_zero]
    intro c hc
    by_cases htarget : c.target = id
    · simp [hsources c.source (h.feedsWithin_iff.mpr ⟨c, hc, rfl, htarget⟩)]
    · simp [htarget]
  have hmem := (hok.mem_iff id).mpr ⟨(h.mem_iff id).mpr hid, hwaiting⟩
  rwa [hqueue, List.append_nil] at hmem

theorem Selects.schedule_of_order? (h : p.Selects members S) (horder : p.order? members = .ok order) :
    p.IsSchedule S order := by
  obtain ⟨hlength, rfl⟩ := order?_eq_ok_iff.mp horder
  have hok := h.ok_lastRelease
  have hnodup := (List.nodup_append.mp hok.nodup).1
  -- As many distinct members as there are members are all of them.
  have hperm : (p.lastRelease members).order.Perm members :=
    (List.subperm_of_subset hnodup fun _ => hok.mem_members).perm_of_length_le hlength.ge
  have hmem : ∀ id, id ∈ (p.lastRelease members).order ↔ S id := fun id =>
    hperm.mem_iff.trans (h.mem_iff id)
  refine ⟨hnodup, hmem, fun pre u post hsplit c hc hu hs => ?_⟩
  have htarget : S c.target := by
    rw [hu, ← hmem, hsplit]
    simp
  exact hok.before pre u post hsplit c (h.mem_links.mpr ⟨hc, h.source hc hs htarget, htarget⟩) hu

/-- A connection leads forward in a schedule. -/
theorem IsSchedule.idxOf_lt (h : p.IsSchedule S order) {a b : String} (hab : p.FeedsWithin S a b) :
    order.idxOf a < order.idxOf b := by
  obtain ⟨-, hb, ha, -, c, hc, rfl, rfl⟩ := hab
  exact (idxOf_lt_of_before h.nodup ((h.mem_iff _).mpr hb) fun pre post hsplit =>
    h.before pre c.target post hsplit c hc rfl ha).2

theorem IsSchedule.acyclicOn (h : p.IsSchedule S order) : p.AcyclicOn S := by
  intro a hcycle
  have hrank : ∀ b, Relation.TransGen (p.FeedsWithin S) a b → order.idxOf a < order.idxOf b := by
    intro b hpath
    induction hpath with
    | single hab => exact h.idxOf_lt hab
    | tail _ hbc ih => exact ih.trans (h.idxOf_lt hbc)
  exact lt_irrefl _ (hrank a hcycle)

/-- Facts about the nodes of a schedule can be proved from those about the nodes before. -/
theorem IsSchedule.induction (h : p.IsSchedule S order) {P : String → Prop}
    (step : ∀ u, S u → (∀ a, p.FeedsWithin S a u → P a) → P u) : ∀ u, S u → P u := by
  -- On the prefixes of the order, from the left: the sources of the last node lie in the rest.
  have hprefix : ∀ pre post, order = pre ++ post → ∀ u ∈ pre, P u := by
    intro pre
    induction pre using List.reverseRecOn with
    | nil => simp
    | append_singleton pre x ih =>
      intro post hsplit u hu
      rw [List.append_assoc, List.singleton_append] at hsplit
      have hearlier := ih (x :: post) hsplit
      rcases List.mem_append.mp hu with hin | hin
      · exact hearlier u hin
      · rw [List.mem_singleton.mp hin]
        have hx : S x := by
          rw [← h.mem_iff, hsplit]
          simp
        refine step x hx fun a ha => hearlier a ?_
        obtain ⟨-, -, hs, -, c, hc, rfl, htarget⟩ := ha
        exact h.before pre x post hsplit c hc htarget hs
  intro u hu
  exact hprefix order [] (by simp) u ((h.mem_iff u).mpr hu)

/-! ## What is released in the end -/

/-- The node lies on a cycle of nodes of `S` or is reached from one through nodes of `S`. -/
def BehindCycle (p : Program) (S : String → Prop) (id : String) : Prop :=
  ∃ a, Relation.TransGen (p.FeedsWithin S) a a ∧ Relation.ReflTransGen (p.FeedsWithin S) a id

/-- What leads to a released node was released before it. -/
theorem Selects.idxOf_lt_of_path (h : p.Selects members S) {a b : String}
    (hpath : Relation.TransGen (p.FeedsWithin S) a b) (hb : b ∈ (p.lastRelease members).order) :
    a ∈ (p.lastRelease members).order ∧
      (p.lastRelease members).order.idxOf a < (p.lastRelease members).order.idxOf b := by
  have hone : ∀ {x y}, p.FeedsWithin S x y → y ∈ (p.lastRelease members).order →
      x ∈ (p.lastRelease members).order ∧
        (p.lastRelease members).order.idxOf x < (p.lastRelease members).order.idxOf y := by
    intro x y hxy hy
    obtain ⟨c, hc, rfl, rfl⟩ := h.feedsWithin_iff.mp hxy
    exact h.ok_lastRelease.idxOf_lt hc hy
  induction hpath with
  | single hab => exact hone hab hb
  | tail _ hbc ih =>
    obtain ⟨hmid, hlt⟩ := hone hbc hb
    exact ⟨(ih hmid).1, (ih hmid).2.trans hlt⟩

/-- **Released in the end are exactly the selected nodes that lie on no cycle and behind none.** -/
theorem Selects.mem_order_iff (h : p.Selects members S) {id : String} (hid : S id) :
    id ∈ (p.lastRelease members).order ↔ ¬ p.BehindCycle S id := by
  constructor
  · rintro hin ⟨a, hcycle, hpath⟩
    have ha : a ∈ (p.lastRelease members).order := by
      rcases Relation.reflTransGen_iff_eq_or_transGen.mp hpath with rfl | hpath
      · exact hin
      · exact (h.idxOf_lt_of_path hpath hin).1
    exact lt_irrefl _ (h.idxOf_lt_of_path hcycle ha).2
  · -- Nothing left over can be minimal among the nodes that no cycle leads to: the sources of such a
    -- node are of that kind as well, and when all of them are released, so is the node.
    let R : String → String → Prop := fun a b => p.FeedsWithin S a b ∧ ¬ p.BehindCycle S b
    have hpath : ∀ {a b}, Relation.TransGen R a b → Relation.TransGen (p.FeedsWithin S) a b :=
      fun hab => Relation.TransGen.mono (fun _ _ hone => hone.1) _ _ hab
    have hstrict : IsStrictOrder String (Relation.TransGen R) :=
      { irrefl := fun a hcycle => by
          obtain ⟨-, -, -, hlast⟩ := Relation.TransGen.tail'_iff.mp hcycle
          exact hlast ⟨a, hpath hcycle, .refl⟩
        trans := fun _ _ _ => Relation.TransGen.trans }
    have hwf : {id | id ∈ members}.WellFoundedOn (Relation.TransGen R) :=
      (List.finite_toSet members).wellFoundedOn
    refine hwf.induction (P := fun id => ¬ p.BehindCycle S id → id ∈ (p.lastRelease members).order)
      ((h.mem_iff id).mpr hid) fun b hb ih hfree => ?_
    refine h.mem_order_of_sources ((h.mem_iff b).mp hb) fun a hab => ?_
    refine ih a ((h.mem_iff a).mpr hab.1) (.single ⟨hab, hfree⟩) ?_
    rintro ⟨x, hcycle, hxa⟩
    exact hfree ⟨x, hcycle, hxa.tail hab⟩

/-- An acyclic selection is released to the end. -/
theorem Selects.order?_of_acyclicOn (h : p.Selects members S) (hacyclic : p.AcyclicOn S) :
    ∃ order, p.order? members = .ok order := by
  have hok := h.ok_lastRelease
  have hperm : (p.lastRelease members).order.Perm members :=
    (List.perm_ext_iff_of_nodup (List.nodup_append.mp hok.nodup).1 h.nodup).mpr fun id =>
      ⟨hok.mem_members, fun hid => (h.mem_order_iff ((h.mem_iff id).mp hid)).mpr
        fun ⟨a, hcycle, _⟩ => hacyclic a hcycle⟩
  exact ⟨_, order?_eq_ok_iff.mpr ⟨hperm.length_eq, rfl⟩⟩

/-! ## Passes -/

theorem pass_eq_ok_iff {ctx : Context} {e : Evaluation} :
    p.pass ctx members = .ok e ↔
      ∃ order, p.order? members = .ok order ∧ e = p.visitAll ctx (order.filterMap p.node?) := by
  unfold pass
  cases p.order? members with
  | error err => simp
  | ok order => simp [eq_comm]

/-- **A pass over a selection runs exactly when the selection has no cycle.** -/
theorem Selects.pass_ok_iff (h : p.Selects members S) (ctx : Context) :
    (∃ e, p.pass ctx members = .ok e) ↔ p.AcyclicOn S := by
  constructor
  · rintro ⟨e, hpass⟩
    obtain ⟨order, horder, -⟩ := pass_eq_ok_iff.mp hpass
    exact (h.schedule_of_order? horder).acyclicOn
  · intro hacyclic
    obtain ⟨order, horder⟩ := h.order?_of_acyclicOn hacyclic
    exact ⟨_, pass_eq_ok_iff.mpr ⟨order, horder, rfl⟩⟩

/-- The visits of a pass follow the order of its selection. -/
theorem Selects.order?_of_pass (h : p.Selects members S) {ctx : Context} {e : Evaluation}
    (hpass : p.pass ctx members = .ok e) : p.order? members = .ok e.order := by
  obtain ⟨order, horder, rfl⟩ := pass_eq_ok_iff.mp hpass
  have hschedule := h.schedule_of_order? horder
  rwa [order_visitAll, map_id_filterMap_node? fun id hid => h.hasNode ((hschedule.mem_iff id).mp hid)]

theorem Selects.schedule (h : p.Selects members S) {ctx : Context} {e : Evaluation}
    (hpass : p.pass ctx members = .ok e) : p.IsSchedule S e.order :=
  h.schedule_of_order? (h.order?_of_pass hpass)

/-- **A pass runs exactly when there is no directed cycle among the nodes it needs, and then it
visits each of them once, after all existing sources of its connections.** For one node these are
the node and what feeds it; cycles elsewhere do not matter. For all nodes it is the whole program. -/
theorem evaluate_ok_iff_acyclic (p : Program) (ctx : Context) :
    (∀ t, p.hasNode t →
      ((∃ e, p.evaluate ctx t = .ok e) ↔ p.AcyclicOn (p.Supplies · t)) ∧
      ∀ e, p.evaluate ctx t = .ok e → p.IsSchedule (p.Supplies · t) e.order) ∧
    ((∃ e, p.evaluateAll ctx = .ok e) ↔ p.AcyclicOn (p.hasNode ·)) ∧
    ∀ e, p.evaluateAll ctx = .ok e → p.IsSchedule (p.hasNode ·) e.order := by
  refine ⟨fun t ht => ?_, (selects_all p).pass_ok_iff ctx, fun e => (selects_all p).schedule⟩
  rw [evaluate_eq_pass ht]
  exact ⟨(selects_suppliers ht).pass_ok_iff ctx, fun e => (selects_suppliers ht).schedule⟩

/-- Two numbers and their sum, and a relay apart. The second operand has three connections: one
from each number, and one from a node that does not exist. -/
def adder : Program where
  id := none
  nodes :=
    [⟨.ofType "n" "Number", .number⟩, ⟨.ofType "m" "Number", .number⟩, ⟨.ofType "s" "Math", .math⟩,
      ⟨.ofType "r" "Relay", .relay⟩]
  connections :=
    [⟨"1", "n", "value", "s", "num1"⟩, ⟨"2", "m", "value", "s", "num2"⟩,
      ⟨"3", "n", "value", "s", "num2"⟩, ⟨"4", "x", "value", "s", "num2"⟩]
  recentTicks := []
  nodes_nodup := by decide
  connections_nodup := by decide

/-- The same with a relay that feeds itself. -/
def adderWithLoop : Program :=
  { adder with
    connections := adder.connections ++ [⟨"5", "r", "value", "r", "num1"⟩]
    connections_nodup := by decide }

theorem adderWithLoop_evaluate_sum (ctx : Context) :
    adderWithLoop.evaluate ctx "s"
      = .ok (adderWithLoop.visitAll ctx (["n", "m", "s"].filterMap adderWithLoop.node?)) := by
  rfl

/-- The sum can be evaluated although the program has a cycle, and a pass over all nodes cannot
run. -/
theorem adderWithLoop_schedules :
    adderWithLoop.hasNode "s" ∧
      (∃ e, adderWithLoop.evaluate ⟨0, ∅⟩ "s" = .ok e ∧
        adderWithLoop.IsSchedule (adderWithLoop.Supplies · "s") e.order) ∧
      adderWithLoop.AcyclicOn (adderWithLoop.Supplies · "s") ∧
      ¬ adderWithLoop.AcyclicOn (adderWithLoop.hasNode ·) := by
  have hnode : adderWithLoop.hasNode "s" := by decide
  obtain ⟨hone, hall, -⟩ := evaluate_ok_iff_acyclic adderWithLoop ⟨0, ∅⟩
  obtain ⟨hiff, hschedule⟩ := hone "s" hnode
  refine ⟨hnode, ⟨_, adderWithLoop_evaluate_sum _, hschedule _ (adderWithLoop_evaluate_sum _)⟩,
    hiff.mp ⟨_, adderWithLoop_evaluate_sum _⟩, fun hacyclic => ?_⟩
  obtain ⟨e, he⟩ := hall.mpr hacyclic
  have hcycle : adderWithLoop.evaluateAll ⟨0, ∅⟩ = .error (.cycle ["r"]) := by rfl
  rw [hcycle] at he
  exact absurd he (by simp)

end Dataflow.Program
