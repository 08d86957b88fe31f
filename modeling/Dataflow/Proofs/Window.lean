import Dataflow.Proofs.Fields
import Dataflow.Proofs.Tick
import Dataflow.Snapshot.Reader
/-!
# Recent values as a sliding window

A buffer that is used in any way keeps an account of its samples: those that were entered since it was
last created or emptied, and those that have left it since then. Main statement: after any operations
the samples that have left, followed by those that are there, are the ones that were entered, in their
order (`RecentValues.sliding_window`). So nothing is lost, doubled or moved, and only the oldest sample
leaves.

A document creates the buffer of the samples that it lists (`RecentValues.eq_of_read`), so reading one
is an operation like the others.
-/
set_option autoImplicit false

namespace Dataflow

open Json

/-! ## The samples of a document -/

namespace RecentValues

/-- The lists that an object keeps under `nodeValue`. -/
def keyedLists (members : List (List Piece × Tree)) : List Tree :=
  (members.filter fun m => (readPieces m.1).toOption == some "nodeValue").map (·.2)

/-- The items of a list; nothing else has any. -/
def listItems : Tree → List Tree
  | .array items => items
  | _ => []

/-- The items from which a document gives samples: those of the document itself, or those of the last
list that it keeps under `nodeValue`. -/
def sampleItems : Tree → List Tree
  | .object members => ((keyedLists members).getLast?.map listItems).getD []
  | t => listItems t

/-- The samples that items stand for. -/
def samplesOf (items : List Tree) : List Float :=
  items.filterMap fun t => (readSample t).toOption

theorem samplesOf_of_mapM {items : List Tree} {samples : List Float}
    (h : items.mapM readSample = .ok samples) : samplesOf items = samples := by
  have hpairs := mapM_eq_ok_iff_forall₂.mp h
  clear h
  induction hpairs with
  | nil => rfl
  | cons hx _ ih =>
    rw [samplesOf, List.filterMap_cons_some (by rw [hx]; rfl), ← ih]
    rfl

theorem keyedLists_cons {m : List Piece × Tree} {rest : List (List Piece × Tree)} {key : String}
    (hkey : readPieces m.1 = .ok key) :
    keyedLists (m :: rest) = if key = "nodeValue" then m.2 :: keyedLists rest else keyedLists rest := by
  by_cases hname : key = "nodeValue"
  · rw [keyedLists, List.filter_cons_of_pos (by simp [hkey, Except.toOption, hname]), if_pos hname]
    rfl
  · rw [keyedLists, List.filter_cons_of_neg (by simp [hkey, Except.toOption, hname]), if_neg hname]
    rfl

theorem samplesOf_of_readList {t : Tree} {samples : List Float}
    (h : t.readList readSample = .ok samples) : samplesOf (listItems t) = samples := by
  rw [Tree.readList.eq_def] at h
  split at h
  · exact samplesOf_of_mapM h
  · exact absurd h (Tree.mismatch_ne_ok _ _ _)

/-- The members of an object leave the buffer of the last list under `nodeValue`. -/
theorem eq_of_readFields_keyed {members : List (List Piece × Tree)} {old r : RecentValues}
    (h : Tree.readFields readKeyedSamples old members = .ok r) :
    r = ((keyedLists members).getLast?.map fun t => ofList (samplesOf (listItems t))).getD old := by
  induction members generalizing old with
  | nil =>
    cases h
    rfl
  | cons m rest ih =>
    rw [Tree.readFields] at h
    cases hkey : readPieces m.1 with
    | error e => exact absurd h (by simp [hkey])
    | ok key =>
      cases hnext : readKeyedSamples old key m.2 with
      | error e => exact absurd h (by simp [hkey, hnext])
      | ok next =>
        simp only [hkey, hnext] at h
        rw [ih h, keyedLists_cons hkey]
        rw [readKeyedSamples] at hnext
        split at hnext
        · next hname =>
          obtain ⟨samples, hsamples, rfl⟩ := map_eq_ok_iff.mp hnext
          have hlist := samplesOf_of_readList hsamples
          rw [if_pos hname, List.getLast?_cons]
          cases (keyedLists rest).getLast? with
          | none => simp [hlist]
          | some t => simp
        · next hname =>
          cases hnext
          rw [if_neg hname]

/-- **A document that is read creates the buffer of the samples that it lists.** -/
theorem eq_of_read {t : Tree} {r : RecentValues} (h : read t = .ok r) :
    r = ofList (samplesOf (sampleItems t)) := by
  rw [read.eq_def] at h
  split at h
  · cases h
    rfl
  · obtain ⟨samples, hsamples, rfl⟩ := map_eq_ok_iff.mp h
    exact congrArg ofList (samplesOf_of_mapM hsamples).symm
  · next members =>
    rw [eq_of_readFields_keyed h, sampleItems]
    cases (keyedLists members).getLast? with
    | none => rfl
    | some t => rfl
  · exact absurd h (Tree.mismatch_ne_ok _ _ _)

/-- The samples that a text lists. -/
def listedIn (text : String) : List Float :=
  ((Tree.ofText? text).map fun t => samplesOf (sampleItems t)).getD []

theorem eq_of_ofText {text : String} {r : RecentValues} (h : ofText text = .ok r) :
    r = ofList (listedIn text) := by
  rw [ofText, readText] at h
  cases ht : Tree.ofText? text with
  | none => exact absurd h (by simp [ht])
  | some t =>
    cases hr : read t with
    | error m => exact absurd h (by simp [ht, hr])
    | ok r' =>
      simp only [ht, hr] at h
      cases h
      rw [listedIn, ht]
      exact eq_of_read hr

/-! ## Accounts -/

/-- What may be done to a buffer. -/
inductive Operation where
  | new
  | withCapacity (capacity : Nat)
  | collect (samples : List Float)
  /-- Reading the buffer from a text; one that holds no recent values changes nothing. -/
  | decode (text : String)
  | setCapacity (capacity : Nat)
  | push (sample : Float)
  | clear

/-- A buffer with what became of its samples since it was last created or emptied. -/
structure Account where
  buffer : RecentValues := .empty
  /-- The samples that were entered. -/
  entered : List Float := []
  /-- The samples that have left, in the order in which they left. -/
  gone : List Float := []

namespace Account

/-- What one operation does. A push lets go of the sample that it gives back, and a change of capacity
of as many of the oldest samples as the buffer becomes shorter. -/
def step (a : Account) : Operation → Account
  | .new => ⟨.empty, [], []⟩
  | .withCapacity n => ⟨.ofCapacity n, [], []⟩
  | .collect samples => ⟨.ofList samples, samples, []⟩
  | .decode text =>
    match ofText text with
    | .ok r => ⟨r, listedIn text, []⟩
    | .error _ => a
  | .setCapacity n =>
    let r := a.buffer.setCapacity n
    ⟨r, a.entered, a.gone ++ a.buffer.samples.take (a.buffer.samples.length - r.samples.length)⟩
  | .push x => ⟨a.buffer.push x, a.entered ++ [x], a.gone ++ a.buffer.evicted?.toList⟩
  | .clear => ⟨a.buffer.clear, [], []⟩

def run (operations : List Operation) : Account :=
  operations.foldl step {}

/-- What has left and what is there make up what was entered. -/
def Balanced (a : Account) : Prop :=
  a.gone ++ a.buffer.samples = a.entered

theorem Balanced.step {a : Account} (h : a.Balanced) (o : Operation) : (a.step o).Balanced := by
  cases o with
  | new => rfl
  | withCapacity n => rfl
  | collect samples => rfl
  | clear => rfl
  | decode text =>
    rw [Account.step]
    split
    · next r hr =>
      rw [eq_of_ofText hr]
      rfl
    · exact h
  | push x =>
    calc a.gone ++ a.buffer.evicted?.toList ++ (a.buffer.push x).samples
        = a.gone ++ (a.buffer.samples ++ [x]) := by
          rw [List.append_assoc, evicted?_append_samples_push]
      _ = a.entered ++ [x] := by rw [← List.append_assoc, h]
  | setCapacity n =>
    have hshorter : a.buffer.samples.length - (a.buffer.setCapacity n).samples.length
        = a.buffer.samples.length - max n 1 := by
      simp only [setCapacity, List.length_drop]
      omega
    calc a.gone ++ a.buffer.samples.take
            (a.buffer.samples.length - (a.buffer.setCapacity n).samples.length)
          ++ (a.buffer.setCapacity n).samples
        = a.gone ++ a.buffer.samples := by
          rw [hshorter, setCapacity, List.append_assoc, List.take_append_drop]
      _ = a.entered := h

theorem balanced_run (operations : List Operation) : (run operations).Balanced := by
  induction operations using List.reverseRecOn with
  | nil => rfl
  | append_singleton operations o ih =>
    rw [run, List.foldl_append]
    exact ih.step o

end Account

/-! ## Single operations -/

theorem samples_setCapacity (r : RecentValues) (n : Nat) :
    (r.setCapacity n).samples = r.samples.rtake (max n 1) := rfl

/-- A full buffer gives back its oldest sample, any other nothing. -/
theorem evicted?_eq_some_iff (r : RecentValues) (v : Float) :
    r.evicted? = some v ↔ r.samples.length = r.capacity ∧ r.samples.head? = some v := by
  have hle := r.length_le
  rw [evicted?, isFull]
  split
  · next hfull =>
    have hlength : r.samples.length = r.capacity := by
      rw [decide_eq_true_eq] at hfull
      omega
    simp [hlength]
  · next hroom =>
    have hlength : r.samples.length ≠ r.capacity := by
      rw [decide_eq_true_eq] at hroom
      omega
    simp [hlength]

theorem isSome_evicted? (r : RecentValues) : r.evicted?.isSome ↔ r.samples.length = r.capacity := by
  have hpos := r.capacity_pos
  rw [Option.isSome_iff_exists]
  simp only [evicted?_eq_some_iff]
  constructor
  · rintro ⟨v, hfull, -⟩
    exact hfull
  · intro hfull
    have hne : r.samples ≠ [] := List.ne_nil_of_length_pos (by omega)
    exact ⟨_, hfull, List.head?_eq_some_head hne⟩

/-- **A buffer is a sliding window.** After any operations, in any order and with any arguments, the
buffer has room for at least one sample and holds no more than it has room for. The samples that have
left it, then those that it holds, are the ones that were entered since it was last created or
emptied; so it holds the newest of them, in their order. A push gives back a sample exactly when the
buffer is full, and then the oldest; it and a change of capacity keep as many of the newest samples as
there is room for. -/
theorem sliding_window (operations : List Operation) :
    let a := Account.run operations
    1 ≤ a.buffer.capacity ∧ a.buffer.samples.length ≤ a.buffer.capacity ∧
    a.gone ++ a.buffer.samples = a.entered ∧
    a.buffer.samples <:+ a.entered ∧
    (a.buffer.evicted?.isSome ↔ a.buffer.samples.length = a.buffer.capacity) ∧
    (∀ v, a.buffer.evicted? = some v ↔
      a.buffer.samples.length = a.buffer.capacity ∧ a.buffer.samples.head? = some v) ∧
    (∀ x, (a.buffer.push x).capacity = a.buffer.capacity ∧
      (a.buffer.push x).samples = (a.buffer.samples ++ [x]).rtake a.buffer.capacity) ∧
    ∀ n, (a.buffer.setCapacity n).capacity = max n 1 ∧
      (a.buffer.setCapacity n).samples = a.buffer.samples.rtake (max n 1) := by
  intro a
  have hbalanced : a.Balanced := Account.balanced_run operations
  refine ⟨a.buffer.capacity_pos, a.buffer.length_le, hbalanced, ⟨a.gone, hbalanced⟩,
    isSome_evicted? _, evicted?_eq_some_iff _, fun x => ⟨rfl, samples_push_eq_rtake _ x⟩,
    fun n => ⟨rfl, samples_setCapacity _ n⟩⟩

example :
    let a := Account.run [.withCapacity 2, .push 1.0, .push 2.0, .push 3.0, .setCapacity 0]
    a.gone = [1.0, 2.0] ∧ a.buffer.samples = [3.0] ∧ a.buffer.capacity = 1 := by
  refine ⟨?_, ?_, ?_⟩ <;> rfl

end RecentValues

end Dataflow
