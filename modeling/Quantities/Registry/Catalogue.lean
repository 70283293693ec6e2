import Quantities.Draw
import Quantities.Operator
import Quantities.Reduction
import Quantities.Registry.Basic
import Quantities.Transform

/-!
# The catalogue

The function objects that every run starts with, and the order in which they are registered.
-/

namespace Quantities

def Reduction.toFunction (reduction : Reduction) : ScalarFunction where
  name := reduction.name
  eval := reduction.eval

def Transform.toFunction (transform : Transform) : UnaryFunction where
  name := transform.name
  body := .pure transform.eval

def Draw.toFunction (draw : Draw) : UnaryFunction where
  name := draw.name
  body := .random draw.eval

/-- The body of an operator: the comparisons within a tolerance read the epsilon, the merges put up with
a missing side, and the others do neither. -/
def Operator.body (operator : Operator) : BinaryBody :=
  match operator with
  | .equal | .unequal | .atMost | .atLeast => .tolerant operator.eval
  | .mergeAdd | .mergeMultiply | .mergeMaximum | .mergeMinimum => .undefTolerant (operator.eval 0.0)
  | _ => .strict (operator.eval 0.0)

def Operator.toFunction (operator : Operator) : BinaryFunction where
  name := operator.name
  body := operator.body

def catalogue : List SetFunction :=
  Reduction.all.map (fun reduction => .scalar reduction.toFunction)
    ++ Transform.all.map (fun transform => .unary transform.toFunction)
    ++ Draw.all.map (fun draw => .unary draw.toFunction)
    ++ Operator.all.map (fun operator => .binary operator.toFunction)

namespace Registry

def loadCatalogue (r : Registry) : Registry × Option SetupError :=
  r.registerAll catalogue

def standard : Registry :=
  empty.loadCatalogue.1

end Registry

end Quantities
