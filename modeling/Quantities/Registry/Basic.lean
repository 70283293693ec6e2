import Std.Data.TreeMap
import Quantities.SetFunction
import Quantities.Text.Blank

/-!
# The registry

Functions by family and name.  A name is unique within its family, case matters, and an entry is never
replaced or removed.
-/

namespace Quantities

structure Registry where
  scalar : Std.TreeMap String ScalarFunction
  unary : Std.TreeMap String UnaryFunction
  binary : Std.TreeMap String BinaryFunction

namespace Registry

def empty : Registry where
  scalar := ∅
  unary := ∅
  binary := ∅

def scalar? (r : Registry) (name : String) : Option ScalarFunction :=
  r.scalar[name]?

def unary? (r : Registry) (name : String) : Option UnaryFunction :=
  r.unary[name]?

def binary? (r : Registry) (name : String) : Option BinaryFunction :=
  r.binary[name]?

def get? (r : Registry) (family : Family) (name : String) : Option SetFunction :=
  match family with
  | .scalar => (r.scalar? name).map .scalar
  | .unary => (r.unary? name).map .unary
  | .binary => (r.binary? name).map .binary

def contains (r : Registry) (family : Family) (name : String) : Bool :=
  match family with
  | .scalar => r.scalar.contains name
  | .unary => r.unary.contains name
  | .binary => r.binary.contains name

def names (r : Registry) (family : Family) : List String :=
  match family with
  | .scalar => r.scalar.keys
  | .unary => r.unary.keys
  | .binary => r.binary.keys

def size (r : Registry) : Nat :=
  r.scalar.size + r.unary.size + r.binary.size

def isEmpty (r : Registry) : Bool :=
  r.size == 0

def isValidName (name : String) : Bool :=
  name != "" && !name.toList.any isBlank

def insert (r : Registry) : SetFunction → Registry
  | .scalar f => { r with scalar := r.scalar.insert f.name f }
  | .unary f => { r with unary := r.unary.insert f.name f }
  | .binary f => { r with binary := r.binary.insert f.name f }

def register (r : Registry) (f : SetFunction) : Except SetupError Registry :=
  if !isValidName f.name then
    .error (.invalidName f.name)
  else if r.contains f.family f.name then
    .error (.duplicateFunction f.family f.name)
  else
    .ok (r.insert f)

/--
Registers functions in order up to the first that is refused.  The answer holds the functions before
that one and the reason of the refusal.
-/
def registerAll (r : Registry) : List SetFunction → Registry × Option SetupError
  | [] => (r, none)
  | f :: rest =>
      match r.register f with
      | .ok r => r.registerAll rest
      | .error e => (r, some e)

theorem contains_eq_isSome_get? (r : Registry) (family : Family) (name : String) :
    r.contains family name = (r.get? family name).isSome := by
  cases family <;> simp [contains, get?, scalar?, unary?, binary?]

/-- Inserting a function changes the registry under its own family and name only. -/
theorem get?_insert (r : Registry) (f : SetFunction) (family : Family) (name : String) :
    (r.insert f).get? family name =
      if f.family = family ∧ f.name = name then some f else r.get? family name := by
  cases f <;> cases family <;>
    simp [insert, get?, scalar?, unary?, binary?, SetFunction.family, SetFunction.name,
      Std.TreeMap.getElem?_insert] <;>
    split <;> simp_all

end Registry

end Quantities
