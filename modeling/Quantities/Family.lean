/-!
# Families of functions

The three call shapes of functions: a set to a value, a set to a set, and two sets to a set.
-/

namespace Quantities

inductive Family where
  | scalar
  | unary
  | binary
deriving DecidableEq, Repr

def Family.label : Family → String
  | .scalar => "scalar"
  | .unary => "unary"
  | .binary => "binary"

end Quantities
