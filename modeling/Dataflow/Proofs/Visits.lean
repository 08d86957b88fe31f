import Mathlib.Data.List.Induction
import Dataflow.Eval.Pass
import Dataflow.Proofs.Paths
import Dataflow.Proofs.Release
/-!
# Visits

A pass is a fold that appends one visit at a time, so each visit is the visit of its node after
exactly the visits before it (`visitAll_split`), and what was computed stays as it is when more
visits follow (`visit?_append_left`).

`Program.Selects` says what `evaluate` and `evaluateAll` have in common: both are passes over a part
of the node table that holds with a node everything that feeds it.
-/
set_option autoImplicit false

namespace Dataflow

/-! ## Nodes by id -/

namespace Program

theorem mem_of_node? {p : Program} {id : String} {n : Node} (h : p.node? id = some n) :
    n ∈ p.nodes ∧ n.id = id :=
  (find?_eq_some_iff_of_nodup p.nodes_nodup).mp h

/-- Ids are unambiguous, so a node is found under its own. -/
theorem node?_of_mem {p : Program} {n : Node} (hn : n ∈ p.nodes) : p.node? n.id = some n :=
  (find?_eq_some_iff_of_nodup p.nodes_nodup).mpr ⟨hn, rfl⟩

theorem isSome_node? {p : Program} {id : String} : (p.node? id).isSome = p.hasNode id :=
  List.isSome_find?

theorem exists_node? {p : Program} {id : String} (h : p.hasNode id) :
    ∃ n, p.node? id = some n :=
  Option.isSome_iff_exists.mp (isSome_node?.trans h)

theorem hasNode_of_node? {p : Program} {id : String} {n : Node} (h : p.node? id = some n) :
    p.hasNode id := by
  rw [← isSome_node?, h]
  rfl

theorem hasNode_of_mem {p : Program} {n : Node} (hn : n ∈ p.nodes) : p.hasNode n.id :=
  hasNode_of_node? (node?_of_mem hn)

/-- Existing ids survive being looked up. -/
theorem map_id_filterMap_node? {p : Program} {ids : List String} (h : ∀ id ∈ ids, p.hasNode id) :
    (ids.filterMap p.node?).map (·.id) = ids := by
  induction ids with
  | nil => rfl
  | cons id ids ih =>
    obtain ⟨n, hn⟩ := exists_node? (h id List.mem_cons_self)
    rw [List.filterMap_cons_some hn, List.map_cons, (mem_of_node? hn).2,
      ih fun x hx => h x (List.mem_cons_of_mem _ hx)]

theorem mem_filterMap_node? {p : Program} {ids : List String} {n : Node} :
    n ∈ ids.filterMap p.node? ↔ n ∈ p.nodes ∧ n.id ∈ ids := by
  rw [List.mem_filterMap]
  constructor
  · rintro ⟨id, hid, hn⟩
    obtain ⟨hmem, rfl⟩ := mem_of_node? hn
    exact ⟨hmem, hid⟩
  · rintro ⟨hmem, hid⟩
    exact ⟨n.id, hid, node?_of_mem hmem⟩

end Program

/-! ## Lookups among visits -/

namespace Evaluation

theorem mem_order {e : Evaluation} {id : String} : id ∈ e.order ↔ ∃ v ∈ e.visits, v.id = id := by
  simp [order]

theorem visit?_eq_none_iff {e : Evaluation} {id : String} : e.visit? id = none ↔ id ∉ e.order := by
  simp [visit?, order, List.find?_eq_none]

/-- Later visits change nothing for a node that was visited already. -/
theorem visit?_append_left {pre post : List Visit} {id : String}
    (h : id ∈ (Evaluation.mk pre).order) :
    (Evaluation.mk (pre ++ post)).visit? id = (Evaluation.mk pre).visit? id := by
  cases hfind : (Evaluation.mk pre).visit? id with
  | none => exact absurd h (visit?_eq_none_iff.mp hfind)
  | some v =>
    have hpre : pre.find? (·.id == id) = some v := hfind
    simp only [visit?, List.find?_append, hpre, Option.some_or]

/-- When no node is visited twice, the visits before one are of other nodes. -/
theorem ne_of_split {e : Evaluation} {pre post : List Visit} {v : Visit} (hnodup : e.order.Nodup)
    (h : e.visits = pre ++ v :: post) : ∀ w ∈ pre, w.id ≠ v.id := by
  intro w hw
  rw [order, h, List.map_append, List.nodup_append] at hnodup
  exact hnodup.2.2 w.id (List.mem_map_of_mem hw) v.id (by simp)

/-- When no node is visited twice, a visit is found under its id. -/
theorem visit?_of_split {e : Evaluation} {pre post : List Visit} {v : Visit} (hnodup : e.order.Nodup)
    (h : e.visits = pre ++ v :: post) : e.visit? v.id = some v := by
  have hpre : pre.find? (·.id == v.id) = none := by
    rw [List.find?_eq_none]
    intro w hw hid
    exact ne_of_split hnodup h w hw (by simpa using hid)
  simp [visit?, h, List.find?_append, hpre]

/-- When no node is visited twice, the visits before one are those up to its id. -/
theorem takeWhile_of_split {e : Evaluation} {pre post : List Visit} {v : Visit}
    (hnodup : e.order.Nodup) (h : e.visits = pre ++ v :: post) :
    e.visits.takeWhile (·.id != v.id) = pre := by
  have hpre : ∀ w ∈ pre, (w.id != v.id) = true := by
    intro w hw
    simpa using ne_of_split hnodup h w hw
  rw [h, List.takeWhile_append_of_pos hpre, List.takeWhile_cons_of_neg (by simp), List.append_nil]

theorem outputs?_congr {e f : Evaluation} {id : String} (h : e.visit? id = f.visit? id) :
    e.outputs? id = f.outputs? id := by
  rw [outputs?, outputs?, h]

theorem held?_congr {e f : Evaluation} {id : String} (h : e.visit? id = f.visit? id) :
    e.held? id = f.held? id := by
  rw [held?, held?, h]

end Evaluation

namespace Program

/-! ## The fold -/

theorem visitAll_concat (p : Program) (ctx : Context) (nodes : List Node) (n : Node) :
    p.visitAll ctx (nodes ++ [n])
      = ⟨(p.visitAll ctx nodes).visits ++ [p.visit ctx (p.visitAll ctx nodes) n]⟩ := by
  simp [visitAll, List.foldl_append]

theorem order_visitAll (p : Program) (ctx : Context) (nodes : List Node) :
    (p.visitAll ctx nodes).order = nodes.map (·.id) := by
  induction nodes using List.reverseRecOn with
  | nil => rfl
  | append_singleton nodes n ih =>
    rw [visitAll_concat, List.map_append, ← ih]
    simp [Evaluation.order, visit]

/-- **A visit sees exactly the visits before it.** -/
theorem visitAll_split {p : Program} {ctx : Context} {nodes : List Node} {pre post : List Visit}
    {v : Visit} (h : (p.visitAll ctx nodes).visits = pre ++ v :: post) :
    ∃ n ∈ nodes, n.id = v.id ∧ v = p.visit ctx ⟨pre⟩ n := by
  induction nodes using List.reverseRecOn generalizing post with
  | nil => simp [visitAll] at h
  | append_singleton nodes n ih =>
    rw [visitAll_concat] at h
    rcases split_concat h with ⟨rfl, rfl, -⟩ | ⟨mid, -, hmid⟩
    · exact ⟨n, by simp, rfl, rfl⟩
    · obtain ⟨m, hm, hid, hv⟩ := ih hmid
      exact ⟨m, List.mem_append_left _ hm, hid, hv⟩

/-! ## Selections -/

/-- The `members` are the nodes of `S` in table order, and `S` is closed under what feeds it. -/
structure Selects (p : Program) (members : List String) (S : String → Prop) : Prop where
  sublist : members.Sublist (p.nodes.map (·.id))
  mem_iff : ∀ id, id ∈ members ↔ S id
  closed : p.FeedClosed S

namespace Selects

variable {p : Program} {members : List String} {S : String → Prop}

theorem nodup (h : p.Selects members S) : members.Nodup :=
  h.sublist.nodup p.nodes_nodup

theorem hasNode (h : p.Selects members S) {id : String} (hid : S id) : p.hasNode id :=
  hasNode_iff_mem.mpr (h.sublist.subset ((h.mem_iff id).mpr hid))

/-- An existing source of a connection into a selected node is selected. -/
theorem source (h : p.Selects members S) {c : Connection} (hc : c ∈ p.connections)
    (hs : p.hasNode c.source) (ht : S c.target) : S c.source :=
  h.closed _ _ (feeds_of_mem_connections hc hs (h.hasNode ht)) ht

theorem mem_links (h : p.Selects members S) {c : Connection} :
    c ∈ p.links members ↔ c ∈ p.connections ∧ S c.source ∧ S c.target := by
  simp [links, h.mem_iff]

theorem inside (h : p.Selects members S) : Release.Inside members (p.links members) := by
  intro c hc
  obtain ⟨-, hs, ht⟩ := h.mem_links.mp hc
  exact ⟨(h.mem_iff _).mpr hs, (h.mem_iff _).mpr ht⟩

theorem feedsWithin_iff (h : p.Selects members S) {a b : String} :
    p.FeedsWithin S a b ↔ ∃ c ∈ p.links members, c.source = a ∧ c.target = b := by
  constructor
  · rintro ⟨ha, hb, -, -, c, hc, rfl, rfl⟩
    exact ⟨c, h.mem_links.mpr ⟨hc, ha, hb⟩, rfl, rfl⟩
  · rintro ⟨c, hc, rfl, rfl⟩
    obtain ⟨hmem, hs, ht⟩ := h.mem_links.mp hc
    exact ⟨hs, ht, feeds_of_mem_connections hmem (h.hasNode hs) (h.hasNode ht)⟩

end Selects

theorem selects_suppliers {p : Program} {t : String} (ht : p.hasNode t) :
    p.Selects (p.suppliers t) (p.Supplies · t) where
  sublist := suppliers_sublist p t
  mem_iff := fun _ => mem_suppliers_iff ht
  closed := feedClosed_supplies p t

theorem selects_all (p : Program) : p.Selects (p.nodes.map (·.id)) (p.hasNode ·) where
  sublist := .refl _
  mem_iff := fun _ => hasNode_iff_mem.symm
  closed := feedClosed_hasNode p

theorem evaluate_eq_pass {p : Program} {t : String} (ht : p.hasNode t) (ctx : Context) :
    p.evaluate ctx t = p.pass ctx (p.suppliers t) :=
  if_pos ht

/-- An evaluation that succeeds has an existing target. -/
theorem hasNode_of_evaluate {p : Program} {ctx : Context} {t : String} {e : Evaluation}
    (h : p.evaluate ctx t = .ok e) : p.hasNode t := by
  unfold evaluate at h
  split at h
  · assumption
  · exact absurd h (by simp)

end Program

end Dataflow
