import Dataflow.Eval.Warning
import Dataflow.Program.Basic
/-!
# Which nodes a pass visits, and in which order

`Program.suppliers` collects a node and everything that feeds it, directly or through others.
`Program.order?` arranges such a selection so that every node comes after the nodes that feed it.

The arrangement releases nodes one at a time. A node waits for as many releases as it has
connections from selected nodes, counted with repeats; a node that waits for nothing joins the end
of a queue, and the head of the queue is released next. Nodes that wait for nothing from the start
are queued in table order, and the targets of a released node are served in the order of the
connections. Every release takes one node for good, so there are at most as many as selected
nodes; those that never get a turn lie on a cycle or behind one.
-/
set_option autoImplicit false

namespace Dataflow

/-! ## Suppliers -/

namespace Program

/-- The nodes of `unseen` from which a connection leads to a node of `front`. -/
def feeding (p : Program) (unseen front : List String) : List String :=
  unseen.filter fun id => p.connections.any fun c => c.source == id && front.contains c.target

/-- The nodes of `unseen` from which a path leads to a node of `front`, found in at most the given
number of rounds: those next to the front, then those next to these. -/
def reaching (p : Program) : Nat → List String → List String → List String
  | 0, _, _ => []
  | rounds + 1, unseen, front =>
    let found := p.feeding unseen front
    if found.isEmpty then []
    else found ++ p.reaching rounds (unseen.filter fun id => !found.contains id) found

/-- The ids of a node and of all nodes from which it is reached, in table order. A round that finds
something takes it from the nodes not yet seen, so there are at most as many rounds as nodes. -/
def suppliers (p : Program) (target : String) : List String :=
  let ids := p.nodes.map (·.id)
  let found := target :: p.reaching ids.length (ids.filter (· != target)) [target]
  ids.filter fun id => found.contains id

end Program

/-! ## Order -/

/-- The state between two releases. -/
structure Release where
  /-- The nodes released so far, the first first. -/
  order : List String
  /-- The nodes that wait for nothing, in the order in which they will be released. -/
  queue : List String
  /-- The number of connections from nodes not yet released into a node. -/
  waiting : String → Nat

namespace Release

/-- The state after one connection into `id` has been served. -/
def serve (r : Release) (id : String) : Release :=
  let left := r.waiting id - 1
  { r with
    queue := if left = 0 then r.queue ++ [id] else r.queue
    waiting := fun other => if other = id then left else r.waiting other }

/-- The state after the head of the queue was released, with the connections out of it served. -/
def next (links : List Connection) (r : Release) : Release :=
  match r.queue with
  | [] => r
  | id :: rest =>
    ((links.filter (·.source == id)).map (·.target)).foldl serve
      { r with order := r.order ++ [id], queue := rest }

/-- The state after at most `n` releases. -/
def run (links : List Connection) : Nat → Release → Release
  | 0, r => r
  | n + 1, r => run links n (r.next links)

/-- The state before the first release. -/
def start (members : List String) (links : List Connection) : Release :=
  let waiting := fun id => links.countP (·.target == id)
  ⟨[], members.filter fun id => waiting id == 0, waiting⟩

end Release

namespace Program

/-- The connections between selected nodes. -/
def links (p : Program) (members : List String) : List Connection :=
  p.connections.filter fun c => members.contains c.source && members.contains c.target

/-- The state in which the releases of a selection end. -/
def lastRelease (p : Program) (members : List String) : Release :=
  let links := p.links members
  Release.run links members.length (.start members links)

/-- The selected nodes in an order in which every node comes after those that feed it. When there
is none, the nodes that still wait at the end, in the order of the selection. -/
def order? (p : Program) (members : List String) : Except PassError (List String) :=
  let last := p.lastRelease members
  if last.order.length = members.length then .ok last.order
  else .error (.cycle (members.filter fun id => 0 < last.waiting id))

end Program

end Dataflow
