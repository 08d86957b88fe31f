import Dataflow.Proofs.Agreement
import Dataflow.Proofs.Faults
/-!
# The order of the tables

Seeds follow the order of the nodes and releases that of the connections, so another order of the
tables changes the order of the visits. Main statement: it changes nothing else, as long as the
connections into one input pin keep their order among themselves, because the last of them decides
(`evaluateAll_rearranged`).

What is shown and held comes from the equations. The warnings of a pass over all nodes are, up to their
order, those found at each node of the table (`warnings_perm`), which no order enters.
-/
set_option autoImplicit false

namespace Dataflow.Program

/-- The program `q` has the tables of `p` in another order, with the same order among the connections
into one input pin. -/
structure Rearranged (p q : Program) : Prop where
  nodes : q.nodes.Perm p.nodes
  connections : q.connections.Perm p.connections
  into : ∀ id pin, q.into id pin = p.into id pin

variable {p q : Program}

namespace Rearranged

/-- It is enough to compare the pins that a connection leads to. -/
theorem of_connections (hnodes : q.nodes.Perm p.nodes) (hconnections : q.connections.Perm p.connections)
    (h : ∀ c ∈ p.connections, q.into c.target c.targetInput = p.into c.target c.targetInput) :
    p.Rearranged q := by
  refine ⟨hnodes, hconnections, fun id pin => ?_⟩
  cases hinto : p.into id pin with
  | nil =>
    refine List.eq_nil_iff_forall_not_mem.mpr fun c hc => ?_
    obtain ⟨hmem, hends⟩ := mem_into.mp hc
    have hc' : c ∈ p.into id pin := mem_into.mpr ⟨hconnections.mem_iff.mp hmem, hends⟩
    rw [hinto] at hc'
    exact absurd hc' List.not_mem_nil
  | cons c rest =>
    have hc : c ∈ p.into id pin := by
      rw [hinto]
      exact List.mem_cons_self
    obtain ⟨hmem, rfl, rfl⟩ := mem_into.mp hc
    rw [h c hmem, hinto]

theorem node? (h : p.Rearranged q) (id : String) : q.node? id = p.node? id := by
  cases hp : p.node? id with
  | some n =>
    obtain ⟨hn, rfl⟩ := mem_of_node? hp
    exact node?_of_mem (h.nodes.mem_iff.mpr hn)
  | none =>
    cases hq : q.node? id with
    | none => rfl
    | some m =>
      obtain ⟨hm, rfl⟩ := mem_of_node? hq
      exact absurd ((node?_of_mem (h.nodes.mem_iff.mp hm)).symm.trans hp) (by simp)

theorem hasNode (h : p.Rearranged q) (id : String) : q.hasNode id = p.hasNode id := by
  rw [← isSome_node?, ← isSome_node?, h.node?]

theorem sameOn (h : p.Rearranged q) (ctx : Context) : SameOn (p.hasNode ·) ctx ctx p q where
  nodes := fun n hn _ => ⟨n, h.nodes.mem_iff.mpr hn, .refl ctx n⟩
  into := fun id pin _ => h.into id pin

theorem fault?_eq (h : p.Rearranged q) (target : String) (k : Kind) :
    q.fault? target k = p.fault? target k := by
  funext c
  have hdelivers : q.delivers c = p.delivers c := by rw [delivers, delivers, h.node?]
  rw [fault?, fault?, h.hasNode, hdelivers]

theorem looseEnd?_eq (h : p.Rearranged q) (source : String) :
    q.looseEnd? source = p.looseEnd? source := by
  funext c
  rw [looseEnd?, looseEnd?, h.hasNode]

/-- At each node the same faults are found. -/
theorem faultsAt_perm (h : p.Rearranged q) (n : Node) : (q.faultsAt n).Perm (p.faultsAt n) := by
  rw [faultsAt, faultsAt, h.fault?_eq, h.looseEnd?_eq]
  apply List.Perm.append
  · exact (h.connections.filter _).filterMap _
  · exact (h.connections.filter _).filterMap _

end Rearranged

/-! ## Warnings of a pass over all nodes -/

theorem filterMap_node?_ids (p : Program) : (p.nodes.map (·.id)).filterMap p.node? = p.nodes := by
  rw [List.filterMap_map]
  have hfound : ∀ n ∈ p.nodes, (p.node? ∘ fun n => n.id) n = some n := fun _ => node?_of_mem
  exact (List.filterMap_congr hfound).trans List.filterMap_some

/-- A pass over all nodes visits the nodes of the table in some order. -/
theorem visited_perm {ctx : Context} {e : Evaluation} (hpass : p.evaluateAll ctx = .ok e) :
    (e.order.filterMap p.node?).Perm p.nodes := by
  have hschedule := (selects_all p).schedule hpass
  have horder : e.order.Perm (p.nodes.map (·.id)) :=
    (List.perm_ext_iff_of_nodup hschedule.nodup p.nodes_nodup).mpr fun id =>
      (hschedule.mem_iff id).trans hasNode_iff_mem
  have hvisited := horder.filterMap p.node?
  rwa [filterMap_node?_ids] at hvisited

theorem warnings_perm {ctx : Context} {e : Evaluation} (hpass : p.evaluateAll ctx = .ok e) :
    e.warnings.Perm (p.nodes.flatMap p.faultsAt) := by
  rw [(selects_all p).warnings_eq hpass]
  exact (visited_perm hpass).flatMap_right _

/-! ## The same pass -/

/-- **The order of the tables does not matter.** When the nodes and the connections come in another
order, but those into one input pin keep theirs, a pass over all nodes has the same outcome: it fails
for cycles of the same nodes, or every node shows and holds the same, and the warnings are the same up
to their order. -/
theorem evaluateAll_rearranged (h : p.Rearranged q) (ctx : Context) :
    SameOutcome (p.evaluateAll ctx) (q.evaluateAll ctx) ∧
    ∀ e f, p.evaluateAll ctx = .ok e → q.evaluateAll ctx = .ok f → f.warnings.Perm e.warnings := by
  refine ⟨?_, fun e f he hf => ?_⟩
  · have hq := selects_all q
    simp only [h.hasNode] at hq
    exact (selects_all p).sameOutcome hq (h.sameOn ctx)
  · calc List.Perm f.warnings (q.nodes.flatMap q.faultsAt) := warnings_perm hf
      List.Perm _ (p.nodes.flatMap q.faultsAt) := h.nodes.flatMap_right _
      List.Perm _ (p.nodes.flatMap p.faultsAt) := .flatMap_left _ fun n _ => h.faultsAt_perm n
      List.Perm _ e.warnings := (warnings_perm he).symm

/-- The frayed sum with both tables in another order. -/
def frayedElsewhere : Program where
  id := none
  nodes := [⟨.ofType "n" "Number", .number⟩, ⟨.ofType "s" "Math", .math⟩]
  connections :=
    [⟨"3", "s", "value", "y", "num1"⟩, ⟨"4", "n", "active", "s", "num2"⟩,
      ⟨"6", "n", "value", "y", "num1"⟩, ⟨"1", "n", "value", "s", "num1"⟩,
      ⟨"5", "x", "value", "s", "num2"⟩, ⟨"2", "x", "value", "s", "num9"⟩,
      ⟨"7", "x", "value", "y", "num1"⟩]
  recentTicks := []
  nodes_nodup := by decide
  connections_nodup := by decide

theorem rearranged_frayed : frayed.Rearranged frayedElsewhere :=
  .of_connections (.swap _ _ _) (by decide) (by decide)

/-- The sum is shown as before, and the faults of its connections are reported in another order. -/
theorem frayed_rearranged :
    frayed.Rearranged frayedElsewhere ∧
      SameOutcome (frayed.evaluateAll ⟨0, ∅⟩) (frayedElsewhere.evaluateAll ⟨0, ∅⟩) ∧
      ∃ e f, frayed.evaluateAll ⟨0, ∅⟩ = .ok e ∧ frayedElsewhere.evaluateAll ⟨0, ∅⟩ = .ok f ∧
        f.warnings ≠ e.warnings ∧ f.warnings.Perm e.warnings := by
  obtain ⟨hsame, hwarnings⟩ := evaluateAll_rearranged rearranged_frayed ⟨0, ∅⟩
  have he : frayed.evaluateAll ⟨0, ∅⟩
      = .ok (frayed.visitAll ⟨0, ∅⟩ (["n", "s"].filterMap frayed.node?)) := by rfl
  have hf : frayedElsewhere.evaluateAll ⟨0, ∅⟩
      = .ok (frayedElsewhere.visitAll ⟨0, ∅⟩ (["n", "s"].filterMap frayedElsewhere.node?)) := by rfl
  exact ⟨rearranged_frayed, hsame, _, _, he, hf, by decide, hwarnings _ _ he hf⟩

end Dataflow.Program
