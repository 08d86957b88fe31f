import Dataflow.Proofs.Schedule
/-!
# The nodes that a cycle error names

A pass that cannot order its selection names the nodes that still wait. Main statement: these are
exactly the selected nodes that lie on a cycle of selected nodes or behind one, in the order of the
table (`cycle_names`).

What is released in the end is known already (`Selects.mem_order_iff`); here it is read off the counts
of waiting, which is what the error does. A pass for one node names this node whenever it fails,
because every node of the selection leads to it (`Supplies.within`).
-/
set_option autoImplicit false

namespace Dataflow.Program

/-- `ids` lists the nodes of `S` that lie on or behind a cycle of `S`, each once and in the order of
the table, and there is at least one. -/
structure NamesCycle (p : Program) (S : String → Prop) (ids : List String) : Prop where
  ne_nil : ids ≠ []
  nodup : ids.Nodup
  sublist : ids.Sublist (p.nodes.map (·.id))
  mem_iff : ∀ id, id ∈ ids ↔ S id ∧ p.BehindCycle S id

variable {p : Program} {members ids : List String} {S : String → Prop} {ctx : Context}

/-! ## What still waits -/

/-- In the end a selected node waits for something unless it was released. -/
theorem Selects.waiting_pos_iff (h : p.Selects members S) {id : String} (hid : id ∈ members) :
    0 < (p.lastRelease members).waiting id ↔ id ∉ (p.lastRelease members).order := by
  have hqueue : (p.lastRelease members).queue = [] := Release.queue_run_start h.inside h.nodup
  have hmem := h.ok_lastRelease.mem_iff id
  rw [hqueue, List.append_nil] at hmem
  rw [hmem, Nat.pos_iff_ne_zero]
  simp [hid]

theorem order?_eq_error_iff {err : PassError} :
    p.order? members = .error err ↔
      (p.lastRelease members).order.length ≠ members.length ∧
        err = .cycle (members.filter fun id => 0 < (p.lastRelease members).waiting id) := by
  unfold order?
  dsimp only
  split
  · rename_i hlength
    simp [hlength]
  · rename_i hlength
    simp [hlength, eq_comm]

theorem pass_eq_error_iff {err : PassError} :
    p.pass ctx members = .error err ↔ p.order? members = .error err := by
  unfold pass
  cases p.order? members with
  | error err' => simp
  | ok order => simp

/-- When not all members were released, one of them is left over. -/
theorem Selects.exists_notMem_order (h : p.Selects members S)
    (hlength : (p.lastRelease members).order.length ≠ members.length) :
    ∃ id ∈ members, id ∉ (p.lastRelease members).order := by
  by_contra hnone
  have hok := h.ok_lastRelease
  have hall : ∀ id ∈ members, id ∈ (p.lastRelease members).order := fun id hid =>
    by_contra fun hnot => hnone ⟨id, hid, hnot⟩
  have hperm : (p.lastRelease members).order.Perm members :=
    (List.perm_ext_iff_of_nodup (List.nodup_append.mp hok.nodup).1 h.nodup).mpr fun id =>
      ⟨hok.mem_members, hall id⟩
  exact hlength hperm.length_eq

/-! ## The error of a pass -/

/-- **A pass that fails for a cycle names the nodes of its selection on or behind one.** -/
theorem Selects.namesCycle (h : p.Selects members S) (herr : p.pass ctx members = .error (.cycle ids)) :
    p.NamesCycle S ids := by
  obtain ⟨hlength, hids⟩ := order?_eq_error_iff.mp (pass_eq_error_iff.mp herr)
  obtain rfl := PassError.cycle.inj hids
  have hmem : ∀ id, id ∈ members.filter (fun id => 0 < (p.lastRelease members).waiting id) ↔
      id ∈ members ∧ id ∉ (p.lastRelease members).order := by
    intro id
    rw [List.mem_filter, decide_eq_true_iff]
    exact and_congr_right fun hid => h.waiting_pos_iff hid
  refine ⟨?_, h.nodup.filter _, List.filter_sublist.trans h.sublist, fun id => ?_⟩
  · obtain ⟨id, hid⟩ := h.exists_notMem_order hlength
    exact List.ne_nil_of_mem ((hmem id).mpr hid)
  · rw [hmem, h.mem_iff]
    refine and_congr_right fun hid => ?_
    rw [h.mem_order_iff hid, not_not]

/-- Every node on the way from a supplier to a node is a supplier as well. -/
theorem Supplies.within {a t : String} (h : p.Supplies a t) :
    Relation.ReflTransGen (p.FeedsWithin (p.Supplies · t)) a t := by
  obtain ⟨-, hpath⟩ := h
  induction hpath using Relation.ReflTransGen.head_induction_on with
  | refl => exact .refl
  | head hab hbt ih =>
    have hb : p.Supplies _ t := ⟨hab.2.1, hbt⟩
    exact .head ⟨hb.head hab, hb, hab⟩ ih

/-- An evaluation that fails for a cycle has an existing target. -/
theorem hasNode_of_evaluate_eq_cycle {t : String} (h : p.evaluate ctx t = .error (.cycle ids)) :
    p.hasNode t := by
  unfold evaluate at h
  split at h
  · assumption
  · exact absurd h (by simp)

/-- **A cycle error names exactly the nodes of the pass that lie on a directed cycle of these nodes or
are reached from one through them**, each once and in the order of the table. At least one is named,
and an evaluation of one node names this node. -/
theorem cycle_names (p : Program) (ctx : Context) :
    (∀ t ids, p.evaluate ctx t = .error (.cycle ids) → p.NamesCycle (p.Supplies · t) ids ∧ t ∈ ids) ∧
    ∀ ids, p.evaluateAll ctx = .error (.cycle ids) → p.NamesCycle (p.hasNode ·) ids := by
  refine ⟨fun t ids herr => ?_, fun ids herr => (selects_all p).namesCycle herr⟩
  have ht := hasNode_of_evaluate_eq_cycle herr
  rw [evaluate_eq_pass ht] at herr
  have hnames := (selects_suppliers ht).namesCycle herr
  refine ⟨hnames, (hnames.mem_iff t).mpr ⟨⟨ht, .refl⟩, ?_⟩⟩
  -- Some node is named, and from it the way goes on to the target.
  obtain ⟨id, hid⟩ := List.exists_mem_of_ne_nil _ hnames.ne_nil
  obtain ⟨hsupplies, a, hcycle, hpath⟩ := (hnames.mem_iff id).mp hid
  exact ⟨a, hcycle, hpath.trans hsupplies.within⟩

/-- A number feeds a ring of two sums, one of them twice; behind the ring stands another sum, apart
from it a relay that feeds itself. -/
def ring : Program where
  id := none
  nodes :=
    [⟨.ofType "behind" "Math", .math⟩, ⟨.ofType "self" "Relay", .relay⟩, ⟨.ofType "a" "Math", .math⟩,
      ⟨.ofType "n" "Number", .number⟩, ⟨.ofType "b" "Math", .math⟩]
  connections :=
    [⟨"1", "n", "value", "a", "num1"⟩, ⟨"2", "a", "value", "b", "num1"⟩,
      ⟨"3", "a", "value", "b", "num2"⟩, ⟨"4", "b", "value", "a", "num2"⟩,
      ⟨"5", "b", "value", "behind", "num1"⟩, ⟨"6", "n", "value", "behind", "num2"⟩,
      ⟨"7", "self", "value", "self", "num1"⟩]
  recentTicks := []
  nodes_nodup := by decide
  connections_nodup := by decide

/-- A pass for the sum behind the ring names it and the ring, not the relay and not the number. -/
theorem ring_cycle_names :
    ring.evaluate ⟨0, ∅⟩ "behind" = .error (.cycle ["behind", "a", "b"]) ∧
      ring.NamesCycle (ring.Supplies · "behind") ["behind", "a", "b"] ∧
      ring.evaluateAll ⟨0, ∅⟩ = .error (.cycle ["behind", "self", "a", "b"]) ∧
      ring.NamesCycle (ring.hasNode ·) ["behind", "self", "a", "b"] := by
  have hone : ring.evaluate ⟨0, ∅⟩ "behind" = .error (.cycle ["behind", "a", "b"]) := by rfl
  have hall : ring.evaluateAll ⟨0, ∅⟩ = .error (.cycle ["behind", "self", "a", "b"]) := by rfl
  obtain ⟨hnames, hnamesAll⟩ := cycle_names ring ⟨0, ∅⟩
  exact ⟨hone, (hnames _ _ hone).1, hall, hnamesAll _ hall⟩

end Dataflow.Program
