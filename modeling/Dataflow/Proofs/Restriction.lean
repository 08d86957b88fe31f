import Dataflow.Proofs.Equations
/-!
# A pass over a part of the nodes

Main statement: evaluating one node is evaluating everything and then looking only at the node and
what feeds it, with the order, the outputs, the held values and the warnings all kept
(`evaluate_restricts_evaluateAll`).

The orders are compared by running the two loops side by side. `Release.Restricts` relates a state
of the large run to one of the small run: order and queue of the small one are those of the large one
without the nodes left out, and the nodes kept wait for as many connections in both. A release of a
node that is kept is a release in both runs; one of any other node leaves the small run where it is,
because no connection leads from such a node to one that is kept.
-/
set_option autoImplicit false

namespace Dataflow

namespace Release

/-! ## Two runs side by side -/

/-- `s` is `r` seen by the nodes that `keep` holds of. -/
structure Restricts (keep : String → Bool) (r s : Release) : Prop where
  order : s.order = r.order.filter keep
  queue : s.queue = r.queue.filter keep
  waiting : ∀ id, keep id → s.waiting id = r.waiting id

variable {keep : String → Bool} {links : List Connection} {r s : Release}

theorem Restricts.serve_of_keep (h : Restricts keep r s) {t : String} (ht : keep t) :
    Restricts keep (r.serve t) (s.serve t) where
  order := h.order
  queue := by
    simp only [serve, h.waiting t ht, h.queue]
    split
    · rw [List.filter_append, List.filter_cons_of_pos ht, List.filter_nil]
    · rfl
  waiting := fun id hid => by
    rw [waiting_serve, waiting_serve, h.waiting t ht, h.waiting id hid]

/-- Only the small run takes no part in a connection to a node left out. -/
theorem Restricts.serve_of_not_keep (h : Restricts keep r s) {t : String} (ht : ¬ keep t) :
    Restricts keep (r.serve t) s where
  order := h.order
  queue := by
    simp only [serve, h.queue]
    split
    · rw [List.filter_append, List.filter_cons_of_neg ht, List.filter_nil, List.append_nil]
    · rfl
  waiting := fun id hid => by
    have hne : id ≠ t := fun heq => ht (heq ▸ hid)
    rw [waiting_serve, if_neg hne, h.waiting id hid]

theorem Restricts.foldl_serve (h : Restricts keep r s) (ts : List String) :
    Restricts keep (ts.foldl serve r) ((ts.filter keep).foldl serve s) := by
  induction ts generalizing r s with
  | nil => exact h
  | cons t ts ih =>
    by_cases ht : keep t
    · rw [List.filter_cons_of_pos ht]
      exact ih (h.serve_of_keep ht)
    · rw [List.filter_cons_of_neg ht]
      exact ih (h.serve_of_not_keep ht)

/-- The connections to nodes that are kept. -/
def keptLinks (keep : String → Bool) (links : List Connection) : List Connection :=
  links.filter fun c => keep c.target

theorem targets_keptLinks (keep : String → Bool) (links : List Connection) (u : String) :
    targets (keptLinks keep links) u = (targets links u).filter keep := by
  simp only [targets, keptLinks, List.filter_map, List.filter_filter, Function.comp_def]
  congr 2
  funext c
  exact Bool.and_comm _ _

/-- A release of a node that is kept is one in both runs. -/
theorem Restricts.next_of_keep (h : Restricts keep r s) {u : String} {rest : List String}
    (hqueue : r.queue = u :: rest) (hu : keep u) :
    Restricts keep (r.next links) (s.next (keptLinks keep links)) := by
  have hsqueue : s.queue = u :: rest.filter keep := by
    rw [h.queue, hqueue, List.filter_cons_of_pos hu]
  have hstart : Restricts keep { r with order := r.order ++ [u], queue := rest }
      { s with order := s.order ++ [u], queue := rest.filter keep } := by
    refine ⟨?_, rfl, h.waiting⟩
    rw [List.filter_append, List.filter_cons_of_pos hu, List.filter_nil, h.order]
  rw [next_cons hqueue, next_cons hsqueue, targets_keptLinks]
  exact hstart.foldl_serve _

/-- A release of any other node is none of the small run. -/
theorem Restricts.next_of_not_keep (hclosed : ∀ c ∈ links, keep c.target → keep c.source)
    (h : Restricts keep r s) {u : String} {rest : List String} (hqueue : r.queue = u :: rest)
    (hu : ¬ keep u) : Restricts keep (r.next links) s := by
  have hnone : (targets links u).filter keep = [] := by
    refine List.filter_eq_nil_iff.mpr fun t ht hkeep => hu ?_
    obtain ⟨c, hc, rfl, rfl⟩ := mem_targets.mp ht
    exact hclosed c hc hkeep
  have hstart : Restricts keep { r with order := r.order ++ [u], queue := rest } s := by
    refine ⟨?_, ?_, h.waiting⟩
    · rw [List.filter_append, List.filter_cons_of_neg hu, List.filter_nil, List.append_nil, h.order]
    · rw [h.queue, hqueue, List.filter_cons_of_neg hu]
  have hserved := hstart.foldl_serve (targets links u)
  rw [hnone] at hserved
  rwa [next_cons hqueue]

/-- **The large run, seen by the nodes that are kept, is the small run** after as many releases as
kept nodes were released. -/
theorem Restricts.run (hclosed : ∀ c ∈ links, keep c.target → keep c.source)
    (h : Restricts keep r s) (hr : r.order = []) (n : Nat) :
    Restricts keep (Release.run links n r)
      (Release.run (keptLinks keep links) ((Release.run links n r).order.filter keep).length s) := by
  induction n with
  | zero => simpa only [Release.run, hr, List.filter_nil, List.length_nil] using h
  | succ n ih =>
    rw [run_succ]
    cases hqueue : (Release.run links n r).queue with
    | nil =>
      -- Both runs stand still.
      have hstay : (Release.run links n r).next links = Release.run links n r := by
        simp only [next, hqueue]
      rwa [hstay]
    | cons u rest =>
      by_cases hu : keep u
      · rw [order_next_cons hqueue, List.filter_append, List.filter_cons_of_pos hu, List.filter_nil,
          List.length_append, List.length_singleton, run_succ]
        exact ih.next_of_keep hqueue hu
      · rw [order_next_cons hqueue, List.filter_append, List.filter_cons_of_neg hu, List.filter_nil,
          List.append_nil]
        exact ih.next_of_not_keep hclosed hqueue hu

theorem Restricts.start (keep : String → Bool) (members : List String) (links : List Connection) :
    Restricts keep (Release.start members links)
      (.start (members.filter keep) (keptLinks keep links)) := by
  have hcount : ∀ id, keep id →
      (keptLinks keep links).countP (·.target == id) = links.countP (·.target == id) := by
    intro id hid
    rw [keptLinks, List.countP_filter]
    refine List.countP_congr fun c _ => ?_
    simp only [Bool.and_eq_true, beq_iff_eq, and_iff_left_iff_imp]
    rintro rfl
    exact hid
  refine ⟨rfl, ?_, hcount⟩
  simp only [Release.start, List.filter_filter]
  refine List.filter_congr fun id _ => ?_
  by_cases hid : keep id
  · simp [hid, hcount id hid]
  · simp [hid]

end Release

/-! ## Outcomes without some visits -/

namespace Evaluation

/-- The outcome without the visits of other nodes. -/
def restrict (e : Evaluation) (keep : String → Bool) : Evaluation :=
  ⟨e.visits.filter fun v => keep v.id⟩

theorem order_restrict (e : Evaluation) (keep : String → Bool) :
    (e.restrict keep).order = e.order.filter keep := by
  simp only [order, restrict, List.filter_map, Function.comp_def]

theorem visit?_restrict {e : Evaluation} {keep : String → Bool} {id : String} (hid : keep id) :
    (e.restrict keep).visit? id = e.visit? id := by
  simp only [visit?, restrict, List.find?_filter]
  congr 1
  funext v
  by_cases hv : v.id = id
  · simp [hv, hid]
  · simp [hv]

/-- The visits are what looking up the order gives. -/
theorem filterMap_visit? {e : Evaluation} (hnodup : e.order.Nodup) :
    e.order.filterMap e.visit? = e.visits := by
  conv => lhs; rw [order, List.filterMap_map]
  have hone : ∀ v ∈ e.visits, (e.visit? ∘ fun v => v.id) v = some v := by
    intro v hv
    obtain ⟨pre, post, hsplit⟩ := List.append_of_mem hv
    exact visit?_of_split hnodup hsplit
  exact (List.filterMap_congr hone).trans List.filterMap_some

end Evaluation

namespace Program

variable {p : Program} {members : List String} {S T : String → Prop} {keep : String → Bool}

/-! ## The order of a part -/

theorem Selects.links_filter (h : p.Selects members T) (hS : p.Selects (members.filter keep) S) :
    p.links (members.filter keep) = Release.keptLinks keep (p.links members) := by
  simp only [links, Release.keptLinks, List.filter_filter]
  refine List.filter_congr fun c hc => ?_
  rw [Bool.eq_iff_iff]
  simp only [Bool.and_eq_true, List.contains_iff_mem]
  constructor
  · rintro ⟨hs, ht⟩
    exact ⟨(List.mem_filter.mp ht).2, (List.mem_filter.mp hs).1, (List.mem_filter.mp ht).1⟩
  · rintro ⟨hkeep, hs, ht⟩
    have htarget : c.target ∈ members.filter keep := List.mem_filter.mpr ⟨ht, hkeep⟩
    refine ⟨(hS.mem_iff _).mpr ?_, htarget⟩
    exact hS.source hc (h.hasNode ((h.mem_iff _).mp hs)) ((hS.mem_iff _).mp htarget)

/-- **The order of a part that holds with a node what feeds it is the order of the whole without the
other nodes.** -/
theorem Selects.order?_filter (h : p.Selects members T) (hS : p.Selects (members.filter keep) S)
    {order : List String} (horder : p.order? members = .ok order) :
    p.order? (members.filter keep) = .ok (order.filter keep) := by
  have hperm : order.Perm members :=
    (List.perm_ext_iff_of_nodup (h.schedule_of_order? horder).nodup h.nodup).mpr fun id =>
      ((h.schedule_of_order? horder).mem_iff id).trans (h.mem_iff id).symm
  -- All members were released, so the small run has had a turn for each of its own.
  have hlength : (order.filter keep).length = (members.filter keep).length :=
    (hperm.filter keep).length_eq
  obtain ⟨-, rfl⟩ := order?_eq_ok_iff.mp horder
  have hclosed : ∀ c ∈ p.links members, keep c.target → keep c.source := by
    intro c hc hkeep
    have hkept : c ∈ p.links (members.filter keep) := by
      rw [h.links_filter hS]
      exact List.mem_filter.mpr ⟨hc, hkeep⟩
    exact (List.mem_filter.mp ((hS.mem_iff _).mpr (hS.mem_links.mp hkept).2.1)).2
  have hrun := (Release.Restricts.start keep members (p.links members)).run hclosed rfl
    members.length
  have hlast : (p.lastRelease (members.filter keep)).order
      = (p.lastRelease members).order.filter keep := by
    unfold lastRelease at hlength ⊢
    rw [← hrun.order, hlength, h.links_filter hS]
  refine order?_eq_ok_iff.mpr ⟨?_, hlast⟩
  rw [hlast, hlength]

/-! ## What is seen at the nodes of a part -/

/-- Two passes over closed selections agree at the nodes that both visit. -/
theorem Selects.visit?_eq {members' : List String} {ctx : Context} {e all : Evaluation}
    (hT : p.Selects members T) (hS : p.Selects members' S) (hST : ∀ id, S id → T id)
    (hall : p.pass ctx members = .ok all) (he : p.pass ctx members' = .ok e) {id : String}
    (hid : S id) : e.visit? id = all.visit? id := by
  -- What the larger pass shows solves the equations of the smaller one.
  have hsolution : p.IsSolution ctx S all.outputs? all.held? :=
    { outputs := fun n hn hSn => (hT.isSolution hall).outputs n hn (hST _ hSn)
      held := fun n hn hSn => (hT.isSolution hall).held n hn (hST _ hSn) }
  have hagree := IsSolution.unique hS (hS.schedule he) (hS.isSolution he) hsolution
  obtain ⟨n, hfind⟩ := exists_node? (hS.hasNode hid)
  obtain ⟨hn, rfl⟩ := mem_of_node? hfind
  rw [hS.visit?_of_mem he hn hid, hT.visit?_of_mem hall hn (hST _ hid)]
  refine congrArg some (visitUnder_congr fun c hc hs => ?_)
  obtain ⟨hmem, htarget⟩ := mem_incoming.mp hc
  exact (hagree c.source (hS.source hmem hs (htarget ▸ hid))).1

/-- **A pass over a part is the pass over the whole without the other visits.** -/
theorem Selects.pass_filter {ctx : Context} {all : Evaluation} (h : p.Selects members T)
    (hS : p.Selects (members.filter keep) S) (hall : p.pass ctx members = .ok all) :
    p.pass ctx (members.filter keep) = .ok (all.restrict keep) := by
  have hsmall := h.order?_filter hS (h.order?_of_pass hall)
  have he : p.pass ctx (members.filter keep)
      = .ok (p.visitAll ctx ((all.order.filter keep).filterMap p.node?)) :=
    pass_eq_ok_iff.mpr ⟨_, hsmall, rfl⟩
  generalize p.visitAll ctx ((all.order.filter keep).filterMap p.node?) = e at he
  rw [he]
  have horder : e.order = all.order.filter keep := by
    have hsame := (hS.order?_of_pass he).symm.trans hsmall
    exact Except.ok.inj hsame
  have hmem : ∀ id, id ∈ all.order.filter keep → S id ∧ keep id := fun id hid =>
    ⟨((hS.schedule he).mem_iff id).mp (horder ▸ hid), (List.mem_filter.mp hid).2⟩
  have hsub : ∀ id, S id → T id := fun id hid =>
    (h.mem_iff id).mp (List.mem_filter.mp ((hS.mem_iff id).mpr hid)).1
  -- With the order known, the visits are what looking it up gives, and lookups agree.
  have hvisits : e.visits = (all.restrict keep).visits := by
    rw [← Evaluation.filterMap_visit? (hS.schedule he).nodup, ← Evaluation.filterMap_visit?
      (Evaluation.order_restrict all keep ▸ (h.schedule hall).nodup.filter _),
      Evaluation.order_restrict, horder]
    refine List.filterMap_congr fun id hid => ?_
    rw [Evaluation.visit?_restrict (hmem id hid).2]
    exact h.visit?_eq hS hsub hall he (hmem id hid).1
  cases e
  exact congrArg Except.ok (congrArg Evaluation.mk hvisits)

/-! ## One node and everything -/

theorem suppliers_eq_filter {t : String} (ht : p.hasNode t) :
    p.suppliers t = (p.nodes.map (·.id)).filter fun id => p.Supplies id t := by
  have hmem : ∀ id, id ∈ p.suppliers t ↔ p.Supplies id t := fun _ => mem_suppliers_iff ht
  unfold suppliers at hmem ⊢
  refine List.filter_congr fun id hid => ?_
  rw [Bool.eq_iff_iff, decide_eq_true_iff, ← hmem, List.mem_filter]
  exact ⟨fun h => ⟨hid, h⟩, fun h => h.2⟩

/-- **Evaluating one node is evaluating everything, seen only at the node and what feeds it.** -/
theorem evaluate_restricts_evaluateAll {ctx : Context} {all : Evaluation} {t : String}
    (hall : p.evaluateAll ctx = .ok all) (ht : p.hasNode t) :
    ∃ e, p.evaluate ctx t = .ok e ∧
      e.order = all.order.filter (fun id => p.Supplies id t) ∧
      (∀ u, p.Supplies u t → e.outputs? u = all.outputs? u ∧ e.held? u = all.held? u) ∧
      (∀ u, ¬ p.Supplies u t → e.outputs? u = none ∧ e.held? u = none) ∧
      e.warnings = (all.visits.filter fun v => p.Supplies v.id t).flatMap (·.warnings) := by
  have hselects := selects_suppliers ht
  rw [suppliers_eq_filter ht] at hselects
  refine ⟨all.restrict fun id => p.Supplies id t, ?_, Evaluation.order_restrict _ _,
    fun u hu => ?_, fun u hu => ?_, rfl⟩
  · rw [evaluate_eq_pass ht, suppliers_eq_filter ht]
    exact (selects_all p).pass_filter hselects hall
  · have hvisit : (all.restrict fun id => p.Supplies id t).visit? u = all.visit? u :=
      Evaluation.visit?_restrict (decide_eq_true hu)
    exact ⟨Evaluation.outputs?_congr hvisit, Evaluation.held?_congr hvisit⟩
  · have hvisit : (all.restrict fun id => p.Supplies id t).visit? u = none := by
      rw [Evaluation.visit?_eq_none_iff, Evaluation.order_restrict]
      simp [hu]
    simp [Evaluation.outputs?, Evaluation.held?, hvisit]

/-- The pass for the sum leaves out the relay, which the pass over all nodes visits before it. -/
theorem adder_restricts :
    ∃ all e, adder.evaluateAll ⟨0, ∅⟩ = .ok all ∧ all.order = ["n", "m", "r", "s"] ∧
      adder.evaluate ⟨0, ∅⟩ "s" = .ok e ∧ e.order = ["n", "m", "s"] ∧
      (∀ u, adder.Supplies u "s" → e.outputs? u = all.outputs? u ∧ e.held? u = all.held? u) ∧
      e.outputs? "r" = none ∧
      e.warnings = (all.visits.filter fun v => adder.Supplies v.id "s").flatMap (·.warnings) := by
  have horder : (adder.visitAll ⟨0, ∅⟩ (["n", "m", "r", "s"].filterMap adder.node?)).order
      = ["n", "m", "r", "s"] := by
    rfl
  obtain ⟨e, he, hkept, hsame, hnone, hwarnings⟩ :=
    evaluate_restricts_evaluateAll (adder_evaluateAll ⟨0, ∅⟩) (t := "s") (by decide)
  refine ⟨_, e, adder_evaluateAll _, horder, he, ?_, hsame, (hnone "r" (by decide)).1, hwarnings⟩
  rw [hkept, horder]
  decide

end Program

end Dataflow
