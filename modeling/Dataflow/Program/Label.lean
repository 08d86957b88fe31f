import Dataflow.Program.Basic
/-!
# Labels

The names under which nodes appear in formulas and diagrams. A label is the type and the shown
name of the node; of the nodes that share these the first keeps them, and each later one has the
number of those before it added.
-/
set_option autoImplicit false

namespace Dataflow.Program

/-- The labels of `nodes` by id, where `earlier` are the base labels of the nodes before them. -/
def labelsAfter (earlier : List String) : List Node → List (String × String)
  | [] => []
  | n :: rest =>
    let base := n.baseLabel
    let index := earlier.count base
    let label := if index = 0 then base else base ++ "#" ++ Digits.text index
    (n.id, label) :: labelsAfter (base :: earlier) rest

/-- The labels of all nodes by id, in table order. -/
def labels (p : Program) : List (String × String) :=
  labelsAfter [] p.nodes

/-- The label of a node; an id without a node stands for itself. -/
def labelOf (p : Program) (id : String) : String :=
  ((p.labels.find? (·.1 == id)).map (·.2)).getD id

end Dataflow.Program
