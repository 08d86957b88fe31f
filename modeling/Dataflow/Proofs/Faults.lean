import Dataflow.Proofs.Equations
/-!
# What a pass reports

Main statement: a pass reports, node by node in the order of its visits, the faulty connections into
the node and then the loose ends out of it, each in table order, and nothing else (`warnings_exact`).

That every value finds its input was settled with the inputs (`inputsOf_eq`). What is left is who
reports a connection: its target if that exists, and its source otherwise (`reporter`). So no
connection is reported twice, and a pass over all nodes misses only those without any existing end.
-/
set_option autoImplicit false

namespace Dataflow.Program

/-! ## Faults -/

/-- What is wrong with a connection out of a node: its target is missing. -/
def looseEnd? (p : Program) (source : String) (c : Connection) : Option Warning :=
  if p.hasNode c.target then none else some (.missingTarget c.id source c.target)

/-- The faults of the connections into a node, then of those out of it, in table order. -/
def faultsAt (p : Program) (n : Node) : List Warning :=
  (p.incoming n.id).filterMap (p.fault? n.id n.kind) ++
    (p.outgoing n.id).filterMap (p.looseEnd? n.id)

/-- The connection has two existing ends, and both pins are declared there. -/
def IsSound (p : Program) (c : Connection) : Prop :=
  ∃ s t, p.node? c.source = some s ∧ p.node? c.target = some t ∧
    s.kind.hasOutput c.sourceOutput ∧ t.kind.hasInput c.targetInput

/-- The warnings are the faults at the visited nodes in the order of the visits: none of them is that
a value does not fit, and none names the connection of another. -/
structure Reports (p : Program) (e : Evaluation) : Prop where
  warnings : e.warnings = (e.order.filterMap p.node?).flatMap p.faultsAt
  fits : ∀ connection target pin, Warning.incompatibleValue connection target pin ∉ e.warnings
  once : (e.warnings.map (·.connection)).Nodup

variable {p : Program} {n : Node} {c : Connection} {w : Warning}

theorem looseEnds_eq (p : Program) (id : String) :
    p.looseEnds id = (p.outgoing id).filterMap (p.looseEnd? id) := by
  rw [looseEnds, ← List.filterMap_eq_map, List.filterMap_filter]
  refine List.filterMap_congr fun c _ => ?_
  cases htarget : p.hasNode c.target <;> simp [looseEnd?, htarget]

theorem mem_outgoing {id : String} : c ∈ p.outgoing id ↔ c ∈ p.connections ∧ c.source = id := by
  simp [outgoing]

theorem fault?_cases {target : String} {k : Kind} (h : p.fault? target k c = some w) :
    w = .undeclaredInput c.id target c.targetInput ∨ w = .missingSource c.id c.source target ∨
      w = .missingSourceOutput c.id c.source c.sourceOutput := by
  unfold fault? at h
  grind

theorem looseEnd?_eq_some_iff {source : String} :
    p.looseEnd? source c = some w ↔
      p.hasNode c.target = false ∧ w = .missingTarget c.id source c.target := by
  unfold looseEnd?
  cases p.hasNode c.target <;> simp [eq_comm]

/-! ## Who reports a connection -/

/-- The node at which a connection is reported when it is faulty. -/
def reporter (p : Program) (c : Connection) : String :=
  if p.hasNode c.target then c.target else c.source

/-- The connections that are reported at a node. -/
def reportedAt (p : Program) (n : Node) : List Connection :=
  ((p.incoming n.id).filter fun c => (p.fault? n.id n.kind c).isSome) ++
    (p.outgoing n.id).filter fun c => (p.looseEnd? n.id c).isSome

/-- When every value names its key, a list of values has the keys that gave one. -/
theorem map_filterMap_eq {α β : Type} {f : α → Option β} {key : β → String} {id : α → String}
    (hf : ∀ a b, f a = some b → key b = id a) (l : List α) :
    (l.filterMap f).map key = (l.filter fun a => (f a).isSome).map id := by
  induction l with
  | nil => rfl
  | cons a l ih =>
    cases hfa : f a with
    | none => rw [List.filterMap_cons_none hfa, List.filter_cons_of_neg (by simp [hfa]), ih]
    | some b =>
      rw [List.filterMap_cons_some hfa, List.filter_cons_of_pos (by simp [hfa]), List.map_cons,
        List.map_cons, hf a b hfa, ih]

theorem connection_of_fault? {target : String} {k : Kind} (h : p.fault? target k c = some w) :
    w.connection = c.id := by
  rcases fault?_cases h with rfl | rfl | rfl <;> rfl

theorem connection_of_looseEnd? {source : String} (h : p.looseEnd? source c = some w) :
    w.connection = c.id := by
  obtain ⟨-, rfl⟩ := looseEnd?_eq_some_iff.mp h
  rfl

theorem map_connection_faultsAt (p : Program) (n : Node) :
    (p.faultsAt n).map (·.connection) = (p.reportedAt n).map (·.id) := by
  rw [faultsAt, reportedAt, List.map_append, List.map_append,
    map_filterMap_eq fun _ _ => connection_of_fault?,
    map_filterMap_eq fun _ _ => connection_of_looseEnd?]

/-- At its target a connection is sound unless it has a fault there. -/
theorem isSound_iff_fault? (hn : n ∈ p.nodes) (htarget : c.target = n.id) :
    p.IsSound c ↔ p.fault? n.id n.kind c = none := by
  have hnode : p.node? c.target = some n := htarget ▸ node?_of_mem hn
  rw [fault?_eq_none_iff, delivers]
  constructor
  · rintro ⟨s, t, hs, ht, houtput, hinput⟩
    obtain rfl := Option.some.inj (hnode.symm.trans ht)
    exact ⟨hinput, by rw [hs]; exact houtput⟩
  · rintro ⟨hinput, hdelivers⟩
    obtain ⟨s, hs, houtput⟩ := (Option.any_eq_true _ _).mp hdelivers
    exact ⟨s, n, hs, hnode, houtput, hinput⟩

theorem hasNode_of_isSound (h : p.IsSound c) : p.hasNode c.target := by
  obtain ⟨-, t, -, ht, -⟩ := h
  exact hasNode_of_node? ht

/-- **What is reported at a node are the connections that are not sound and have it as their
reporter.** -/
theorem mem_reportedAt (hn : n ∈ p.nodes) :
    c ∈ p.reportedAt n ↔ c ∈ p.connections ∧ p.reporter c = n.id ∧ ¬ p.IsSound c := by
  rw [reportedAt, List.mem_append, List.mem_filter, List.mem_filter, mem_incoming, mem_outgoing,
    reporter]
  cases htarget : p.hasNode c.target with
  | true =>
    have hloose : p.looseEnd? n.id c = none := by simp [looseEnd?, htarget]
    have hfault : ∀ h : c.target = n.id, ((p.fault? n.id n.kind c).isSome ↔ ¬ p.IsSound c) := by
      intro h
      rw [isSound_iff_fault? hn h, ← ne_eq, Option.ne_none_iff_isSome]
    simp only [hloose, Option.isSome_none, Bool.false_eq_true, and_false, or_false, if_true]
    rw [and_assoc]
    exact and_congr_right fun _ => and_congr_right hfault
  | false =>
    have hne : c.target ≠ n.id := by
      intro heq
      rw [heq, hasNode_of_mem hn] at htarget
      exact absurd htarget (by simp)
    have hsound : ¬ p.IsSound c := fun h => by
      rw [hasNode_of_isSound h] at htarget
      exact absurd htarget (by simp)
    simp [hne, hsound, looseEnd?, htarget]

/-! ## Reports of a pass -/

/-- Nothing is reported twice at different nodes, or at one. -/
theorem nodup_flatMap_reportedAt {nodes : List Node} (hnodes : ∀ n ∈ nodes, n ∈ p.nodes)
    (hids : (nodes.map (·.id)).Nodup) : (nodes.flatMap p.reportedAt).Nodup := by
  have hconnections : p.connections.Nodup := p.connections_nodup.of_map
  refine List.nodup_flatMap.mpr ⟨fun n hn => ?_, ?_⟩
  · refine List.nodup_append.mpr ⟨(hconnections.filter _).filter _, (hconnections.filter _).filter _,
      fun c hc d hd heq => ?_⟩
    -- Into an existing node there is no loose end.
    obtain ⟨hin, -⟩ := List.mem_filter.mp hc
    obtain ⟨-, hloose⟩ := List.mem_filter.mp hd
    obtain ⟨w, hw⟩ := Option.isSome_iff_exists.mp hloose
    have hmissing := (looseEnd?_eq_some_iff.mp hw).1
    rw [← heq, (mem_incoming.mp hin).2, hasNode_of_mem (hnodes n hn)] at hmissing
    exact absurd hmissing (by simp)
  · refine (List.pairwise_map.mp hids).imp_of_mem fun {n m} hn hm hne => ?_
    refine List.disjoint_left.mpr fun c hc hc' => hne ?_
    rw [← ((mem_reportedAt (hnodes n hn)).mp hc).2.1, ((mem_reportedAt (hnodes m hm)).mp hc').2.1]

theorem map_connection_flatMap_faultsAt (nodes : List Node) :
    (nodes.flatMap p.faultsAt).map (·.connection) = (nodes.flatMap p.reportedAt).map (·.id) := by
  simp only [List.map_flatMap, map_connection_faultsAt]

/-- The ids of connections that are reported at some nodes are as unambiguous as the connections. -/
theorem mem_map_flatMap_reportedAt {nodes : List Node} (hnodes : ∀ n ∈ nodes, n ∈ p.nodes)
    (hc : c ∈ p.connections) :
    c.id ∈ (nodes.flatMap p.reportedAt).map (·.id) ↔ ∃ n ∈ nodes, c ∈ p.reportedAt n := by
  rw [List.mem_map]
  constructor
  · rintro ⟨d, hd, hid⟩
    obtain ⟨n, hn, hdn⟩ := List.mem_flatMap.mp hd
    have hdc : d = c :=
      List.inj_on_of_nodup_map p.connections_nodup ((mem_reportedAt (hnodes n hn)).mp hdn).1 hc hid
    exact ⟨n, hn, hdc ▸ hdn⟩
  · rintro ⟨n, hn, hcn⟩
    exact ⟨c, List.mem_flatMap.mpr ⟨n, hn, hcn⟩, rfl⟩

theorem nodup_map_flatMap_reportedAt {nodes : List Node} (hnodes : ∀ n ∈ nodes, n ∈ p.nodes)
    (hids : (nodes.map (·.id)).Nodup) : ((nodes.flatMap p.reportedAt).map (·.id)).Nodup := by
  have hmem : ∀ c ∈ nodes.flatMap p.reportedAt, c ∈ p.connections := by
    intro c hc
    obtain ⟨n, hn, hc⟩ := List.mem_flatMap.mp hc
    exact ((mem_reportedAt (hnodes n hn)).mp hc).1
  exact (nodup_flatMap_reportedAt hnodes hids).map_on fun c hc d hd heq =>
    List.inj_on_of_nodup_map p.connections_nodup (hmem c hc) (hmem d hd) heq

variable {ctx : Context} {members : List String} {S : String → Prop} {e : Evaluation}

theorem Selects.warnings_eq (h : p.Selects members S) (hpass : p.pass ctx members = .ok e) :
    e.warnings = (e.order.filterMap p.node?).flatMap p.faultsAt := by
  have hvisits : ∀ v ∈ e.visits, ∃ n, p.node? v.id = some n ∧ v.warnings = p.faultsAt n := by
    intro v hv
    obtain ⟨n, hn, hid, heq⟩ := h.visit_eq_visitUnder hpass hv
    refine ⟨n, hid ▸ node?_of_mem hn, ?_⟩
    rw [heq, visitUnder, looseEnds_eq]
    rfl
  rw [Evaluation.warnings, Evaluation.order]
  generalize e.visits = visits at hvisits
  induction visits with
  | nil => rfl
  | cons v rest ih =>
    obtain ⟨n, hn, hw⟩ := hvisits v List.mem_cons_self
    rw [List.flatMap_cons, List.map_cons, List.filterMap_cons_some hn, List.flatMap_cons, hw,
      ih fun u hu => hvisits u (List.mem_cons_of_mem _ hu)]

theorem Selects.reports (h : p.Selects members S) (hpass : p.pass ctx members = .ok e) :
    p.Reports e := by
  have hwarnings := h.warnings_eq hpass
  have hnodes : ∀ n ∈ e.order.filterMap p.node?, n ∈ p.nodes := fun n hn =>
    (mem_filterMap_node?.mp hn).1
  refine ⟨hwarnings, fun connection target pin hmem => ?_, ?_⟩
  · rw [hwarnings] at hmem
    obtain ⟨n, -, hw⟩ := List.mem_flatMap.mp hmem
    rcases List.mem_append.mp hw with hw | hw
    · obtain ⟨c, -, hc⟩ := List.mem_filterMap.mp hw
      rcases fault?_cases hc with heq | heq | heq <;> exact absurd heq (by simp)
    · obtain ⟨c, -, hc⟩ := List.mem_filterMap.mp hw
      exact absurd (looseEnd?_eq_some_iff.mp hc).2 (by simp)
  · have hschedule := h.schedule hpass
    rw [hwarnings, map_connection_flatMap_faultsAt]
    refine nodup_map_flatMap_reportedAt hnodes ?_
    rw [map_id_filterMap_node? fun id hid => h.hasNode ((hschedule.mem_iff id).mp hid)]
    exact hschedule.nodup

/-- A pass over all nodes is silent about a connection with an existing end exactly when it is
sound. -/
theorem isSound_iff_unreported (hpass : p.evaluateAll ctx = .ok e) (hc : c ∈ p.connections)
    (hend : p.hasNode c.source ∨ p.hasNode c.target) :
    p.IsSound c ↔ c.id ∉ e.warnings.map (·.connection) := by
  have hselects := selects_all p
  have hnodes : ∀ n ∈ e.order.filterMap p.node?, n ∈ p.nodes := fun n hn =>
    (mem_filterMap_node?.mp hn).1
  rw [hselects.warnings_eq hpass, map_connection_flatMap_faultsAt, mem_map_flatMap_reportedAt hnodes hc]
  constructor
  · rintro hsound ⟨n, hn, hcn⟩
    exact ((mem_reportedAt (hnodes n hn)).mp hcn).2.2 hsound
  · intro hsilent
    by_contra hfaulty
    -- Its reporter exists, so it was visited.
    have hreporter : p.hasNode (p.reporter c) := by
      rw [reporter]
      split
      · assumption
      · next htarget => exact hend.resolve_right htarget
    obtain ⟨n, hfind⟩ := exists_node? hreporter
    obtain ⟨hn, hid⟩ := mem_of_node? hfind
    have hvisited : n.id ∈ e.order := ((hselects.schedule hpass).mem_iff n.id).mpr (hasNode_of_mem hn)
    exact hsilent ⟨n, mem_filterMap_node?.mpr ⟨hn, hvisited⟩,
      (mem_reportedAt hn).mpr ⟨hc, hid.symm, hfaulty⟩⟩

/-- **The warnings of a pass are exact.** They are, for each visited node in the order of the visits,
one for each faulty connection into it and then one for each connection out of it to a node that does
not exist, in table order. So none of them is that a value does not fit, no connection is reported
twice, and a pass over all nodes is silent about a connection with an existing end exactly when both
ends exist and declare the pins. -/
theorem warnings_exact (p : Program) (ctx : Context) :
    (∀ t e, p.evaluate ctx t = .ok e → p.Reports e) ∧
    ∀ e, p.evaluateAll ctx = .ok e → p.Reports e ∧
      ∀ c ∈ p.connections, (p.hasNode c.source ∨ p.hasNode c.target) →
        (p.IsSound c ↔ c.id ∉ e.warnings.map (·.connection)) := by
  refine ⟨fun t e he => ?_, fun e he => ⟨(selects_all p).reports he, fun c hc hend =>
    isSound_iff_unreported he hc hend⟩⟩
  have ht := hasNode_of_evaluate he
  rw [evaluate_eq_pass ht] at he
  exact (selects_suppliers ht).reports he

/-- A number and a sum with connections of every kind: to an input that the sum does not have, from an
output that the number does not have, from and to nodes that do not exist, and between two such
nodes. Only the first is sound. -/
def frayed : Program where
  id := none
  nodes := [⟨.ofType "s" "Math", .math⟩, ⟨.ofType "n" "Number", .number⟩]
  connections :=
    [⟨"1", "n", "value", "s", "num1"⟩, ⟨"2", "x", "value", "s", "num9"⟩,
      ⟨"3", "s", "value", "y", "num1"⟩, ⟨"4", "n", "active", "s", "num2"⟩,
      ⟨"5", "x", "value", "s", "num2"⟩, ⟨"6", "n", "value", "y", "num1"⟩,
      ⟨"7", "x", "value", "y", "num1"⟩]
  recentTicks := []
  nodes_nodup := by decide
  connections_nodup := by decide

/-- The number is visited first and reports its loose end; the sum reports the connections into it and
then its own loose end. The connection without any end is not reported. -/
theorem frayed_warnings :
    ∃ e, frayed.evaluateAll ⟨0, ∅⟩ = .ok e ∧ frayed.Reports e ∧
      e.warnings = [.missingTarget "6" "n" "y", .undeclaredInput "2" "s" "num9",
        .missingSourceOutput "4" "n" "active", .missingSource "5" "x" "s",
        .missingTarget "3" "s" "y"] ∧
      frayed.IsSound ⟨"1", "n", "value", "s", "num1"⟩ ∧
      ∃ e', frayed.evaluate ⟨0, ∅⟩ "n" = .ok e' ∧ frayed.Reports e' := by
  have hall : frayed.evaluateAll ⟨0, ∅⟩
      = .ok (frayed.visitAll ⟨0, ∅⟩ (["n", "s"].filterMap frayed.node?)) := by rfl
  have hone : frayed.evaluate ⟨0, ∅⟩ "n"
      = .ok (frayed.visitAll ⟨0, ∅⟩ (["n"].filterMap frayed.node?)) := by rfl
  obtain ⟨hreportsOne, hreportsAll⟩ := warnings_exact frayed ⟨0, ∅⟩
  obtain ⟨hreports, hsound⟩ := hreportsAll _ hall
  refine ⟨_, hall, hreports, by rfl, ?_, _, hone, hreportsOne _ _ hone⟩
  exact (hsound _ List.mem_cons_self (.inl (by decide))).mpr (by decide)

end Dataflow.Program
