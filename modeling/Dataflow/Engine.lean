import Dataflow.Eval.Pass
/-!
# Engines

An engine holds the settings under which programs are loaded and ticked. A tick is a pass over all
nodes whose outcome is recorded: the text of each value under the tick, the value among the recent
ones, what gates hold, and the tick in the log. A tick that fails records nothing.
-/
set_option autoImplicit false

namespace Dataflow

/-- The settings under which programs are loaded and ticked. -/
structure Engine where
  /-- The capacity of every node's recent values. -/
  maxNodeValues : Nat := RecentValues.defaultCapacity
  /-- How many ticks are kept in the log and in the entries; all when it is not set. -/
  tickRetention : Option Nat := none
  catalog : Catalog := .standard
  maxNodeValues_pos : 0 < maxNodeValues := by decide

namespace Engine

/-! ## Settings -/

/-- The engine with another capacity, at least 1. -/
def withMaxNodeValues (e : Engine) (capacity : Nat) : Engine :=
  { e with maxNodeValues := max capacity 1, maxNodeValues_pos := Nat.le_max_right capacity 1 }

/-- The engine that keeps the given number of ticks, at least 1. -/
def withTickRetention (e : Engine) (ticks : Nat) : Engine :=
  { e with tickRetention := some (max ticks 1) }

/-- The engine for which `name` stands for the kind of the type name `builtin`. A `builtin` that
names no kind changes nothing. -/
def withTypeAlias (e : Engine) (name builtin : String) : Engine :=
  match Kind.ofName? builtin with
  | some kind => { e with catalog := e.catalog.withAlias name kind }
  | none => e

/-! ## Loading -/

/-- The data of a node with its recent values in a buffer of the engine's capacity. -/
def resize (e : Engine) (d : NodeData) : NodeData :=
  { d with recentValues := d.recentValues.setCapacity e.maxNodeValues }

/-- The program of a definition. -/
def load (e : Engine) (d : Definition) : Except LoadError Program :=
  match Program.ofDefinition? e.catalog d with
  | .error err => .error err
  | .ok p => .ok (p.mapData fun n => e.resize n.data)

/-! ## Ticking -/

/-- The recent values with one more sample, in a buffer of the engine's capacity. -/
def sampled (e : Engine) (r : RecentValues) (x : Float) : RecentValues :=
  (if r.capacity = e.maxNodeValues then r else r.setCapacity e.maxNodeValues).push x

/-- The data of a node after a tick at which it showed `x`. -/
def recorded (e : Engine) (tick : String) (x : Float) (held : Option Float) (d : NodeData) :
    NodeData :=
  { d with
    tickEntries := d.tickEntries.insert tick ⟨some (Number.text x), none⟩
    recentValues := e.sampled d.recentValues x
    heldValue := held }

/-- The program after a tick with the given outcome, with nothing dropped yet. -/
def record (e : Engine) (p : Program) (tick : String) (outcome : Evaluation) : Program :=
  (p.mapData fun n =>
      e.recorded tick ((outcome.value? n.id).getD Number.nan) (outcome.held? n.id) n.data)
    |>.withRecentTicks (p.recentTicks ++ [tick])

end Engine

/-- The program without all but the last `keep` ticks, in its log and in the entries of its
nodes. -/
def Program.retain (p : Program) (keep : Nat) : Program :=
  let surplus := p.recentTicks.length - keep
  let dropped := p.recentTicks.take surplus
  (p.mapData fun n =>
      { n.data with tickEntries := dropped.foldl (fun t tick => t.erase tick) n.data.tickEntries })
    |>.withRecentTicks (p.recentTicks.drop surplus)

namespace Engine

/-- One tick of a program that is kept in place: what the caller is told, and the program as the
tick leaves it, also when the pass cannot run. -/
def advance (e : Engine) (p : Program) (tick : String) (ctx : Context) :
    Except PassError Evaluation × Program :=
  match p.evaluateAll ctx with
  | .error err => (.error err, p)
  | .ok outcome =>
    let p := e.record p tick outcome
    (.ok outcome,
      match e.tickRetention with
      | some keep => p.retain keep
      | none => p)

/-- One tick: the outcome of the pass, and the program that has recorded it. -/
def tick (e : Engine) (p : Program) (tick : String) (ctx : Context) :
    Except PassError (Evaluation × Program) :=
  match e.advance p tick ctx with
  | (.error err, _) => .error err
  | (.ok outcome, p) => .ok (outcome, p)

end Engine

end Dataflow
