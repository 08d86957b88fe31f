/-!
# Recent values

The last samples of a node, oldest first, at most `capacity` of them. A new sample pushes out the
oldest one when the buffer is full. Main statements: a push loses nothing
(`evicted?_append_samples_push`) and keeps the newest samples (`samples_push`).
-/
set_option autoImplicit false

namespace Dataflow

/-- A bounded list of samples, oldest first. -/
structure RecentValues where
  capacity : Nat
  samples : List Float
  capacity_pos : 0 < capacity
  length_le : samples.length ≤ capacity
deriving DecidableEq

namespace RecentValues

/-- The capacity of a buffer for which none is set. -/
def defaultCapacity : Nat := 16

/-- The empty buffer of a capacity; a capacity of zero counts as one. -/
def ofCapacity (capacity : Nat) : RecentValues where
  capacity := max capacity 1
  samples := []
  capacity_pos := by omega
  length_le := by simp

def empty : RecentValues :=
  ofCapacity defaultCapacity

instance : Inhabited RecentValues := ⟨empty⟩

/-- The buffer that holds all the given samples; its capacity is their number, but at least the
default. -/
def ofList (samples : List Float) : RecentValues where
  capacity := max samples.length defaultCapacity
  samples := samples
  capacity_pos := by simp only [defaultCapacity]; omega
  length_le := by omega

/-- True when the next sample pushes one out. -/
def isFull (r : RecentValues) : Bool :=
  r.capacity ≤ r.samples.length

/-- The sample that the next one pushes out. -/
def evicted? (r : RecentValues) : Option Float :=
  if r.isFull then r.samples.head? else none

def push (r : RecentValues) (sample : Float) : RecentValues where
  capacity := r.capacity
  samples := (if r.isFull then r.samples.tail else r.samples) ++ [sample]
  capacity_pos := r.capacity_pos
  length_le := by
    have h := r.length_le
    have p := r.capacity_pos
    simp only [isFull, decide_eq_true_eq]
    split <;> simp <;> omega

/-- The buffer with another capacity; the oldest samples that no longer fit are dropped. -/
def setCapacity (r : RecentValues) (capacity : Nat) : RecentValues where
  capacity := max capacity 1
  samples := r.samples.drop (r.samples.length - max capacity 1)
  capacity_pos := by omega
  length_le := by simp; omega

def clear (r : RecentValues) : RecentValues where
  capacity := r.capacity
  samples := []
  capacity_pos := r.capacity_pos
  length_le := by simp

def last? (r : RecentValues) : Option Float :=
  r.samples.getLast?

/-- The samples as points of a plot: each with its place, counted from zero. -/
def plotPoints (r : RecentValues) : List (Float × Float) :=
  r.samples.zipIdx.map fun (x, i) => (Float.ofNat i, x)

/-! ## What a push keeps -/

/-- Pushing loses nothing: the sample pushed out and the new samples are the old ones and the new
one. -/
theorem evicted?_append_samples_push (r : RecentValues) (x : Float) :
    r.evicted?.toList ++ (r.push x).samples = r.samples ++ [x] := by
  have hp := r.capacity_pos
  by_cases hf : r.isFull = true
  · have hne : r.samples ≠ [] := by
      intro h
      simp only [isFull, h, List.length_nil, decide_eq_true_eq] at hf
      omega
    obtain ⟨a, rest, hs⟩ := List.exists_cons_of_ne_nil hne
    simp only [evicted?, push, hf, if_true, hs, List.head?_cons, List.tail_cons,
      Option.toList_some, List.cons_append, List.nil_append]
  · simp [evicted?, push, hf]

/-- A push keeps as many of the newest samples as fit. -/
theorem samples_push (r : RecentValues) (x : Float) :
    (r.push x).samples = (r.samples ++ [x]).drop (r.samples.length + 1 - r.capacity) := by
  have hl := r.length_le
  by_cases hf : r.capacity ≤ r.samples.length
  · have hn : r.samples.length + 1 - r.capacity = 1 := by omega
    have hp := r.capacity_pos
    rw [hn, List.drop_one, List.tail_append_of_ne_nil (by intro h; simp [h] at hf; omega)]
    simp [push, isFull, hf]
  · have hn : r.samples.length + 1 - r.capacity = 0 := by omega
    simp [push, isFull, hf, hn]

end RecentValues

end Dataflow
