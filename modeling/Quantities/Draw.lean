import Quantities.Generator.Sampling
import Quantities.KeyedSet.Threaded

/-!
# Random functions of one set

Functions that replace every value of a set by a draw from the caller's generator.  There is no other
generator: the one after the last draw is part of the answer.
-/

namespace Quantities

inductive Draw where
  | normal
  | uniform
deriving DecidableEq, Repr

namespace Draw

def all : List Draw :=
  [.normal, .uniform]

def name : Draw → String
  | .normal => "RANDN"
  | .uniform => "RANDU"

def number : Draw → Generator → Float × Generator
  | .normal => Generator.normal
  | .uniform => Generator.uniform

/-- One draw for every entry in key order, whether or not the entry was defined. -/
def eval (draw : Draw) (g : Generator) (s : KeyedSet) : KeyedSet × Generator :=
  s.mapThreaded (fun g _ => let (x, g) := draw.number g; (.ofFloat x, g)) g

end Draw

end Quantities
