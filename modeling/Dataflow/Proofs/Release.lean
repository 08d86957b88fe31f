import Mathlib.Data.List.Perm.Subperm
import Dataflow.Eval.Order
import Dataflow.Proofs.Lists
/-!
# The invariant of the releases

`Release.Ok` is what holds between any two releases: a count of waiting is the number of
connections from nodes that are not released yet, the nodes released or queued are exactly the
selected ones that wait for nothing, none of them twice, and each released node came after the
sources of all connections into it.

The invariant holds at the start (`Ok.start`), one release keeps it (`Ok.next`), and so a whole run
does (`Ok.run`). Inside a release the connections out of the released node are served one at a time;
`Serving` is what holds between two of them, when the released node is only partly dealt with. A node
then also waits for the connections into it that are still to serve, so no count is used up before the
last of them (`Serving.waiting_pos`).
-/
set_option autoImplicit false

namespace Dataflow.Release

/-- Where the connections out of a node lead, in the order in which they are served. -/
def targets (links : List Connection) (id : String) : List String :=
  (links.filter (·.source == id)).map (·.target)

theorem mem_targets {links : List Connection} {id t : String} :
    t ∈ targets links id ↔ ∃ c ∈ links, c.source = id ∧ c.target = t := by
  simp [targets, and_assoc]

theorem count_targets (links : List Connection) (id t : String) :
    (targets links id).count t = links.countP fun c => c.target == t && c.source == id := by
  simp only [targets, List.count, List.countP_map, List.countP_filter, Function.comp_def]

/-- The connections lead from selected nodes to selected nodes. -/
def Inside (members : List String) (links : List Connection) : Prop :=
  ∀ c ∈ links, c.source ∈ members ∧ c.target ∈ members

variable {members : List String} {links : List Connection} {r : Release}

/-! ## Serving connections -/

theorem waiting_serve (r : Release) (t id : String) :
    (r.serve t).waiting id = if id = t then r.waiting t - 1 else r.waiting id := rfl

theorem order_foldl_serve (ts : List String) (r : Release) :
    (ts.foldl serve r).order = r.order := by
  induction ts generalizing r with
  | nil => rfl
  | cons t ts ih =>
    rw [List.foldl_cons, ih]
    rfl

/-- What holds while the connections out of a released node are served; `todo` is where those that are
still to serve lead. -/
structure Serving (members : List String) (links : List Connection) (todo : List String)
    (r : Release) : Prop where
  /-- No node is released or queued twice. -/
  nodup : (r.order ++ r.queue).Nodup
  /-- A node waits for the connections whose sources are not released yet and for those still to
  serve. -/
  waiting_eq : ∀ id, r.waiting id
    = (links.countP fun c => c.target == id && !r.order.contains c.source) + todo.count id
  /-- The nodes released or queued are those that wait for nothing. -/
  mem_iff : ∀ id, id ∈ r.order ++ r.queue ↔ id ∈ members ∧ r.waiting id = 0
  todo_subset : todo ⊆ members

namespace Serving

variable {t : String} {todo : List String}

/-- The node at the end of the next connection still waits for something. -/
theorem waiting_pos (h : Serving members links (t :: todo) r) : 0 < r.waiting t := by
  rw [h.waiting_eq, List.count_cons_self]
  omega

/-- So it is neither released nor queued yet. -/
theorem head_notMem (h : Serving members links (t :: todo) r) : t ∉ r.order ++ r.queue :=
  fun hin => Nat.ne_of_gt h.waiting_pos ((h.mem_iff t).mp hin).2

/-- Serving a connection queues the node at its end when it is the last one that the node waits for,
and nothing else. -/
theorem order_append_queue_serve (r : Release) (t : String) :
    (r.serve t).order ++ (r.serve t).queue
      = if r.waiting t - 1 = 0 then r.order ++ r.queue ++ [t] else r.order ++ r.queue := by
  by_cases hlast : r.waiting t - 1 = 0
  · simp [Release.serve, hlast]
  · simp [Release.serve, hlast]

/-- **One connection served keeps what holds while serving.** -/
theorem serve (h : Serving members links (t :: todo) r) : Serving members links todo (r.serve t) where
  nodup := by
    rw [order_append_queue_serve]
    split
    · exact List.nodup_append.mpr ⟨h.nodup, List.nodup_singleton t,
        fun a ha b hb hab => h.head_notMem (List.mem_singleton.mp hb ▸ hab ▸ ha)⟩
    · exact h.nodup
  waiting_eq := fun id => by
    have hid := h.waiting_eq id
    rw [waiting_serve]
    by_cases hit : id = t
    · subst hit
      rw [List.count_cons_self] at hid
      rw [if_pos rfl, hid]
      rfl
    · rw [List.count_cons_of_ne (Ne.symm hit)] at hid
      rw [if_neg hit, hid]
      rfl
  mem_iff := fun id => by
    have ht : t ∈ members := h.todo_subset List.mem_cons_self
    rw [order_append_queue_serve, waiting_serve]
    by_cases hit : id = t
    · subst hit
      rw [if_pos rfl]
      split
      · next hlast => simp [ht, hlast]
      · next hmore => simp only [h.head_notMem, hmore, and_false]
    · rw [if_neg hit]
      split
      · rw [List.mem_append, List.mem_singleton, or_iff_left hit, h.mem_iff]
      · exact h.mem_iff id
  todo_subset := fun _ hid => h.todo_subset (List.mem_cons_of_mem _ hid)

theorem foldl_serve (h : Serving members links todo r) :
    Serving members links [] (todo.foldl Release.serve r) := by
  induction todo generalizing r with
  | nil => exact h
  | cons t todo ih => exact ih h.serve

end Serving

/-! ## The invariant -/

/-- What holds between two releases of `members` along `links`. -/
structure Ok (members : List String) (links : List Connection) (r : Release) : Prop where
  /-- No node is released or queued twice. -/
  nodup : (r.order ++ r.queue).Nodup
  /-- A node waits for the connections whose sources are not released yet. -/
  waiting_eq : ∀ id, r.waiting id = links.countP fun c => c.target == id && !r.order.contains c.source
  /-- The nodes released or queued are those that wait for nothing. -/
  mem_iff : ∀ id, id ∈ r.order ++ r.queue ↔ id ∈ members ∧ r.waiting id = 0
  /-- A node was released after the sources of all connections into it. -/
  before : ∀ pre u post, r.order = pre ++ u :: post →
    ∀ c ∈ links, c.target = u → c.source ∈ pre

theorem Ok.mem_members (h : Ok members links r) {id : String} (hid : id ∈ r.order) :
    id ∈ members :=
  ((h.mem_iff id).mp (List.mem_append_left _ hid)).1

theorem Ok.start (hmembers : members.Nodup) : Ok members links (.start members links) where
  nodup := by simpa [Release.start] using hmembers.filter _
  waiting_eq := by simp [Release.start]
  mem_iff := by simp [Release.start]
  before := by simp [Release.start]

/-- All connections into a queued node come from released ones. -/
theorem Ok.source_mem_order (h : Ok members links r) {c : Connection} (hc : c ∈ links)
    (hqueued : c.target ∈ r.queue) : c.source ∈ r.order := by
  have hzero := ((h.mem_iff c.target).mp (List.mem_append_right _ hqueued)).2
  rw [h.waiting_eq, List.countP_eq_zero] at hzero
  simpa using hzero c hc

/-- The source of a connection into a released node was released before it. -/
theorem Ok.idxOf_lt (h : Ok members links r) {c : Connection} (hc : c ∈ links)
    (ht : c.target ∈ r.order) :
    c.source ∈ r.order ∧ r.order.idxOf c.source < r.order.idxOf c.target :=
  idxOf_lt_of_before (List.nodup_append.mp h.nodup).1 ht fun pre post hsplit =>
    h.before pre c.target post hsplit c hc rfl

/-- Of the connections that a node waits for, those that come from `u` and the others, which it
still waits for once `u` is released. -/
theorem countP_released (links : List Connection) {order : List String} {u : String}
    (hu : u ∉ order) (id : String) :
    (links.countP fun c => c.target == id && !order.contains c.source)
      = (links.countP fun c => c.target == id && !(order ++ [u]).contains c.source)
        + (targets links u).count id := by
  rw [count_targets]
  induction links with
  | nil => rfl
  | cons c links ih =>
    simp only [List.countP_cons, ih]
    by_cases htarget : c.target = id
    · by_cases hsource : c.source = u
      · simp [htarget, hsource, hu]
        omega
      · by_cases hreleased : c.source ∈ order
        · simp [htarget, hsource, hreleased]
        · simp [htarget, hsource, hreleased]
          omega
    · simp [htarget]

/-! ## One release -/

theorem next_cons {u : String} {rest : List String} (h : r.queue = u :: rest) :
    r.next links = (targets links u).foldl serve { r with order := r.order ++ [u], queue := rest } := by
  simp only [next, h, targets]

theorem order_next_cons {u : String} {rest : List String} (h : r.queue = u :: rest) :
    (r.next links).order = r.order ++ [u] := by
  rw [next_cons h, order_foldl_serve]

/-- Between two releases nothing is left to serve. -/
theorem Ok.serving (h : Ok members links r) : Serving members links [] r where
  nodup := h.nodup
  waiting_eq := h.waiting_eq
  mem_iff := h.mem_iff
  todo_subset := List.nil_subset members

/-- The head of the queue is not released yet. -/
theorem Serving.head_notMem_order {todo : List String} (h : Serving members links todo r) {u : String}
    {rest : List String} (hqueue : r.queue = u :: rest) : u ∉ r.order := by
  have hnodup := h.nodup
  rw [hqueue] at hnodup
  intro hin
  exact (List.nodup_append.mp hnodup).2.2 u hin u List.mem_cons_self rfl

/-- **Taking a node from the queue** leaves all connections out of it to serve. The nodes at their ends
wait for these now, no longer for the release. -/
theorem Serving.release (hinside : Inside members links) (h : Serving members links [] r) {u : String}
    {rest : List String} (hqueue : r.queue = u :: rest) :
    Serving members links (targets links u) { r with order := r.order ++ [u], queue := rest } := by
  have hsame : r.order ++ [u] ++ rest = r.order ++ r.queue := by
    rw [hqueue, List.append_assoc]
    rfl
  have hu := h.head_notMem_order hqueue
  refine ⟨?_, fun id => ?_, fun id => ?_, fun t ht => ?_⟩
  · rw [hsame]
    exact h.nodup
  · rw [h.waiting_eq, List.count_nil, Nat.add_zero, countP_released links hu]
  · rw [hsame, h.mem_iff]
  · obtain ⟨c, hc, -, rfl⟩ := mem_targets.mp ht
    exact (hinside c hc).2

/-- **One release keeps the invariant.** -/
theorem Ok.next (hinside : Inside members links) (h : Ok members links r) :
    Ok members links (r.next links) := by
  cases hqueue : r.queue with
  | nil => simpa [Release.next, hqueue] using h
  | cons u rest =>
    have hserved := (h.serving.release hinside hqueue).foldl_serve
    rw [← next_cons hqueue] at hserved
    refine ⟨hserved.nodup, hserved.waiting_eq, hserved.mem_iff, fun pre x post hsplit c hc hx => ?_⟩
    rw [order_next_cons hqueue] at hsplit
    rcases split_concat hsplit with ⟨rfl, rfl, -⟩ | ⟨mid, -, hmid⟩
    · refine h.source_mem_order hc ?_
      rw [hx, hqueue]
      exact List.mem_cons_self
    · exact h.before pre x mid hmid c hc hx

/-! ## Whole runs -/

theorem run_succ (links : List Connection) (n : Nat) (r : Release) :
    run links (n + 1) r = (run links n r).next links := by
  induction n generalizing r with
  | zero => rfl
  | succ n ih => exact ih (r.next links)

/-- **Every run keeps the invariant.** -/
theorem Ok.run (hinside : Inside members links) (h : Ok members links r) (n : Nat) :
    Ok members links (Release.run links n r) := by
  induction n with
  | zero => exact h
  | succ n ih =>
    rw [run_succ]
    exact ih.next hinside

/-- A release takes one node for good, as long as one is queued. -/
theorem length_order_next (h : r.queue ≠ []) :
    (r.next links).order.length = r.order.length + 1 := by
  cases hqueue : r.queue with
  | nil => exact absurd hqueue h
  | cons u rest =>
    rw [order_next_cons hqueue, List.length_append, List.length_singleton]

theorem length_order_run (links : List Connection) (n : Nat) (r : Release) :
    (run links n r).queue = [] ∨ (run links n r).order.length = r.order.length + n := by
  induction n with
  | zero => exact Or.inr rfl
  | succ n ih =>
    rw [run_succ]
    by_cases hqueue : (run links n r).queue = []
    · left
      simp [next, hqueue]
    · right
      rw [length_order_next hqueue, ih.resolve_left hqueue]
      rfl

/-- A run with a release for every selected node ends with an empty queue. -/
theorem queue_run_start (hinside : Inside members links) (hmembers : members.Nodup) :
    (run links members.length (start members links)).queue = [] := by
  have hok := (Ok.start hmembers).run hinside members.length
  rcases length_order_run links members.length (start members links) with hempty | hlength
  · exact hempty
  · have hle := (List.subperm_of_subset hok.nodup
      fun id hid => ((hok.mem_iff id).mp hid).1).length_le
    rw [List.length_append, hlength] at hle
    exact List.length_eq_zero_iff.mp (by omega)

end Dataflow.Release
