import Dataflow.Proofs.Schedule
/-!
# The releases step by step

A release is one step of the loop in the definition of the order, but not the smallest: it takes a node
from the queue and then serves the connections out of it one after another. Here a step is either one
connection served or one node taken. Main statement: at every moment each node waits for exactly the
connections from nodes not released yet and for those of the released node that are still to serve; so
no count is lowered that is used up, no node comes into the queue twice or from outside the selection,
and the loop ends after at most one release for each selected node (`releases_count`).

The invariant is `Release.Serving`, which the two kinds of steps keep. The steps that make up a release
lead from one moment with nothing to serve to the next (`Reaches.next`), so the moment in which no step
is left is the state from which the order is read.
-/
set_option autoImplicit false

namespace Dataflow

namespace Release

/-- A moment between two steps: the state, and where the connections out of the node released last lead
that are still to serve. -/
structure Moment where
  state : Release
  todo : List String

namespace Moment

/-- All nodes that have been in the queue, in the order in which they came into it. -/
def entered (m : Moment) : List String :=
  m.state.order ++ m.state.queue

/-- The next step: a connection is served, or when none is left the head of the queue is released. No
step is left when the queue is empty too. -/
def step? (links : List Connection) (m : Moment) : Option Moment :=
  match m.todo, m.state.queue with
  | t :: todo, _ => some ⟨m.state.serve t, todo⟩
  | [], u :: rest =>
    some ⟨{ m.state with order := m.state.order ++ [u], queue := rest }, targets links u⟩
  | [], [] => none

variable {links : List Connection} {m m' : Moment}

/-- What a step can do. -/
theorem step?_cases (h : m.step? links = some m') :
    (∃ t todo, m.todo = t :: todo ∧ m' = ⟨m.state.serve t, todo⟩) ∨
    ∃ u rest, m.todo = [] ∧ m.state.queue = u :: rest ∧
      m' = ⟨{ m.state with order := m.state.order ++ [u], queue := rest }, targets links u⟩ := by
  cases htodo : m.todo with
  | cons t todo =>
    rw [step?, htodo] at h
    exact .inl ⟨t, todo, rfl, (Option.some.inj h).symm⟩
  | nil =>
    cases hqueue : m.state.queue with
    | cons u rest =>
      rw [step?, htodo, hqueue] at h
      exact .inr ⟨u, rest, rfl, rfl, (Option.some.inj h).symm⟩
    | nil =>
      rw [step?, htodo, hqueue] at h
      exact absurd h (by simp)

end Moment

/-- The moments of the releases of `members` along `links`, by the number of steps before them. -/
inductive Reaches (members : List String) (links : List Connection) : Nat → Moment → Prop
  | start : Reaches members links 0 ⟨.start members links, []⟩
  | step {k : Nat} {m m' : Moment} :
    Reaches members links k m → m.step? links = some m' → Reaches members links (k + 1) m'

variable {members : List String} {links : List Connection} {k : Nat} {m m' : Moment}

/-! ## What holds at every moment -/

/-- **Every moment has the counts right.** -/
theorem Reaches.serving (hmembers : members.Nodup) (hinside : Inside members links)
    (h : Reaches members links k m) : Serving members links m.todo m.state := by
  induction h with
  | start => exact (Ok.start hmembers).serving
  | step _ hstep ih =>
    rcases Moment.step?_cases hstep with ⟨t, todo, htodo, rfl⟩ | ⟨u, rest, htodo, hqueue, rfl⟩
    · rw [htodo] at ih
      exact ih.serve
    · rw [htodo] at ih
      exact ih.release hinside hqueue

/-- A step brings at most one node into the queue, one that has not been in it. -/
theorem Serving.entered_step (h : Serving members links m.todo m.state)
    (hstep : m.step? links = some m') :
    m'.entered = m.entered ∨ ∃ t, t ∉ m.entered ∧ m'.entered = m.entered ++ [t] := by
  rcases Moment.step?_cases hstep with ⟨t, todo, htodo, rfl⟩ | ⟨u, rest, -, hqueue, rfl⟩
  · rw [htodo] at h
    rw [Moment.entered, Moment.entered, Serving.order_append_queue_serve]
    split
    · exact .inr ⟨t, h.head_notMem, rfl⟩
    · exact .inl rfl
  · left
    rw [Moment.entered, Moment.entered, hqueue, List.append_assoc]
    rfl

/-! ## How many steps there are -/

/-- The connections out of the released nodes, those of the last one among them. -/
theorem countP_sources_concat (links : List Connection) {order : List String} {u : String}
    (hu : u ∉ order) :
    (links.countP fun c => (order ++ [u]).contains c.source)
      = (links.countP fun c => order.contains c.source) + (targets links u).length := by
  rw [targets, List.length_map, ← List.countP_eq_length_filter]
  induction links with
  | nil => rfl
  | cons c links ih =>
    simp only [List.countP_cons, ih]
    by_cases hsource : c.source = u
    · simp [hsource, hu]
      omega
    · by_cases hreleased : c.source ∈ order
      · simp [hsource, hreleased]
        omega
      · simp [hsource, hreleased]

/-- Every step but a release serves a connection out of a released node. -/
theorem Reaches.steps_eq (hmembers : members.Nodup) (hinside : Inside members links)
    (h : Reaches members links k m) :
    k + m.todo.length
      = m.state.order.length + links.countP fun c => m.state.order.contains c.source := by
  induction h with
  | start => simp [Release.start]
  | @step k m m' hbefore hstep ih =>
    rcases Moment.step?_cases hstep with ⟨t, todo, htodo, rfl⟩ | ⟨u, rest, htodo, hqueue, rfl⟩
    · rw [htodo, List.length_cons] at ih
      calc k + 1 + todo.length = k + (todo.length + 1) := by omega
        _ = _ := ih
    · have hu := (hbefore.serving hmembers hinside).head_notMem_order hqueue
      rw [htodo, List.length_nil] at ih
      dsimp only
      rw [countP_sources_concat links hu, List.length_append, List.length_singleton]
      omega

theorem Reaches.length_order_le (hmembers : members.Nodup) (hinside : Inside members links)
    (h : Reaches members links k m) : m.state.order.length ≤ members.length := by
  have hserving := h.serving hmembers hinside
  have hreleased : m.state.order.Nodup := (List.nodup_append.mp hserving.nodup).1
  exact (List.subperm_of_subset hreleased fun id hid =>
    ((hserving.mem_iff id).mp (List.mem_append_left _ hid)).1).length_le

theorem Reaches.steps_le (hmembers : members.Nodup) (hinside : Inside members links)
    (h : Reaches members links k m) : k ≤ members.length + links.length := by
  have hsteps := h.steps_eq hmembers hinside
  have hreleases := h.length_order_le hmembers hinside
  have hserved : (links.countP fun c => m.state.order.contains c.source) ≤ links.length :=
    List.countP_le_length
  omega

/-! ## Whole releases -/

/-- The connections that a release leaves to serve are served one after another. -/
theorem Reaches.foldl_serve {r : Release} {todo : List String}
    (h : Reaches members links k ⟨r, todo⟩) :
    ∃ k', Reaches members links k' ⟨todo.foldl serve r, []⟩ := by
  induction todo generalizing k r with
  | nil => exact ⟨k, h⟩
  | cons t todo ih => exact ih (h.step rfl)

/-- **A release is made up of steps.** -/
theorem Reaches.next {r : Release} (h : Reaches members links k ⟨r, []⟩) :
    ∃ k', Reaches members links k' ⟨r.next links, []⟩ := by
  cases hqueue : r.queue with
  | nil => exact ⟨k, by simpa [Release.next, hqueue] using h⟩
  | cons u rest =>
    have htaken : Reaches members links (k + 1)
        ⟨{ r with order := r.order ++ [u], queue := rest }, targets links u⟩ :=
      h.step (by simp [Moment.step?, hqueue])
    rw [next_cons hqueue]
    exact htaken.foldl_serve

theorem reaches_run (members : List String) (links : List Connection) (n : Nat) :
    ∃ k, Reaches members links k ⟨run links n (.start members links), []⟩ := by
  induction n with
  | zero => exact ⟨0, .start⟩
  | succ n ih =>
    obtain ⟨k, h⟩ := ih
    rw [run_succ]
    exact h.next

end Release

namespace Program

open Release (Reaches)

/-- The connections of a selection lead from selected nodes to selected nodes. -/
theorem inside_links (p : Program) (members : List String) :
    Release.Inside members (p.links members) := by
  intro c hc
  simpa using (List.mem_filter.mp hc).2

/-- **The counts of the releases are right at every step.** For any program and any selection without
repeats, at every moment, also while the connections out of a released node are served: a node waits for
as many connections as there are, with repeats, from selected nodes not released yet, and for those of
the released node that are still to serve. The count that is lowered next is not used up. What comes
into the queue is selected and comes once. The loop ends, after at most one release for each selected
node and one step for each connection, in the state from which the order is read. -/
theorem releases_count (p : Program) {members : List String} (hmembers : members.Nodup) :
    (∀ k m, Reaches members (p.links members) k m →
      (∀ id, m.state.waiting id
        = ((p.links members).countP fun c => c.target == id && !m.state.order.contains c.source)
          + m.todo.count id) ∧
      (∀ t todo, m.todo = t :: todo → 0 < m.state.waiting t) ∧
      m.entered.Nodup ∧ m.entered ⊆ members ∧
      (∀ m', m.step? (p.links members) = some m' →
        m'.entered = m.entered ∨ ∃ t, t ∉ m.entered ∧ m'.entered = m.entered ++ [t]) ∧
      m.state.order.length ≤ members.length ∧
      k ≤ members.length + (p.links members).length) ∧
    ∃ k m, Reaches members (p.links members) k m ∧ m.step? (p.links members) = none ∧
      m.state = p.lastRelease members := by
  have hinside := p.inside_links members
  refine ⟨fun k m h => ?_, ?_⟩
  · have hserving := h.serving hmembers hinside
    refine ⟨hserving.waiting_eq, fun t todo htodo => ?_, hserving.nodup,
      fun id hid => ((hserving.mem_iff id).mp hid).1, fun m' => hserving.entered_step,
      h.length_order_le hmembers hinside, h.steps_le hmembers hinside⟩
    rw [htodo] at hserving
    exact hserving.waiting_pos
  · obtain ⟨k, h⟩ := Release.reaches_run members (p.links members) members.length
    refine ⟨k, _, h, ?_, rfl⟩
    have hqueue := Release.queue_run_start hinside hmembers
    simp [Release.Moment.step?, hqueue]

/-- The releases of all nodes of a program with a relay that feeds itself: the relay is never released,
as it waits for itself. -/
theorem adderWithLoop_releases :
    ["n", "m", "s", "r"].Nodup ∧
    ∃ k m, Reaches ["n", "m", "s", "r"] (adderWithLoop.links ["n", "m", "s", "r"]) k m ∧
      m.step? (adderWithLoop.links ["n", "m", "s", "r"]) = none ∧
      m.entered = ["n", "m", "s"] ∧ m.entered.Nodup ∧ m.state.waiting "r" = 1 ∧
      k ≤ 4 + (adderWithLoop.links ["n", "m", "s", "r"]).length := by
  have hnodup : ["n", "m", "s", "r"].Nodup := by decide
  obtain ⟨hall, k, m, hreach, hend, hstate⟩ := releases_count adderWithLoop hnodup
  obtain ⟨-, -, hentered, -, -, -, hsteps⟩ := hall k m hreach
  refine ⟨hnodup, k, m, hreach, hend, ?_, hentered, ?_, hsteps⟩
  · rw [Release.Moment.entered, hstate]
    rfl
  · rw [hstate]
    rfl

end Program

end Dataflow
