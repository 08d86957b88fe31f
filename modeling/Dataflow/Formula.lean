import Dataflow.Eval.Behaviour
import Dataflow.Program.Label
import Dataflow.Program.Sockets
/-!
# Formulas

The formula of an operator node, written twice: with the labels of the nodes that feed it, and
with their current values. Math, logic and transform nodes have formulas.
-/
set_option autoImplicit false

namespace Dataflow

/-- The two spellings of a formula. -/
structure Formula where
  /-- With the labels of the operands. -/
  symbolic : String
  /-- With the current values of the operands and of the node. -/
  withValues : String
deriving DecidableEq, Repr

/-- One operand of a formula. -/
structure Operand where
  label : String
  value : String
deriving DecidableEq, Repr

namespace Program

/-- The current value of a node as a formula shows it. -/
def shownValue (p : Program) (id : String) : String :=
  (p.currentValue? id).getD "NaN"

/-- The operand at an input pin of a node: the node that feeds the pin, or a placeholder. -/
def operand (p : Program) (id pin : String) : Operand :=
  match (p.feeders id).find? (·.1 == pin) with
  | some (_, source) => ⟨p.labelOf source.id, p.shownValue source.id⟩
  | none => ⟨"unset_" ++ pin, "unset_" ++ pin⟩

/-- The formula of a node with two operands. -/
def binaryFormula (p : Program) (id symbol arrow : String) : Formula :=
  let a := p.operand id "num1"
  let b := p.operand id "num2"
  { symbolic := " ".intercalate [a.label, symbol, b.label, arrow, "nodeValue"]
    withValues := " ".intercalate [a.value, symbol, b.value, arrow, p.shownValue id] }

/-- The formula of a node with one operand, which `sentence` writes. -/
def unaryFormula (p : Program) (id : String) (sentence : String → String) : Formula :=
  let a := p.operand id "num1"
  { symbolic := sentence a.label ++ " nodeValue"
    withValues := sentence a.value ++ " " ++ p.shownValue id }

/-- The formula of a node. An operator that is not set or not known is shown as `?` or as an
unknown function. -/
def formulaOf (p : Program) (n : Node) : Option Formula :=
  match n.kind with
  | .math => some (p.binaryFormula n.id ((n.arithmetic?.map Arithmetic.symbol).getD "?") "=")
  | .logic => some (p.binaryFormula n.id ((n.logic?.map Logic.symbol).getD "?") "⇒")
  | .transform =>
    some (p.unaryFormula n.id fun operand =>
      match n.transform? with
      | some op => op.sentence operand
      | none => "unknownTransform(" ++ operand ++ ") =")
  | _ => none

/-- The formula of the node of an id. -/
def formula? (p : Program) (id : String) : Option Formula :=
  (p.node? id).bind p.formulaOf

end Program

end Dataflow
