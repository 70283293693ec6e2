import Quantities.Generator.Basic
import Quantities.KeyedSet.Basic

/-!
# Settings of a run

How generators are seeded, the range of admissible values, the number that reports show for undefined,
and the tolerance of comparisons.
-/

namespace Quantities

structure Settings where
  /-- Gives every report step a generator of its own instead of one running stream. -/
  reseed : Bool := false
  /-- The seed of the run. -/
  randomSeed : UInt64 := 1
  /-- The largest magnitude that a value may take. -/
  range : Float := 1e20
  /-- The number that reports show for undefined. -/
  undefinedValue : Float := 0.0
  /-- The tolerance of comparisons. -/
  cmpEpsilon : Float := 1e-4
deriving BEq, DecidableEq

namespace Settings

def refusal (parameter rule : String) (x : Float) : SetupError :=
  .invalidParameter parameter
    ("must be a number " ++ rule ++ ", got " ++ String.ofList (NumberStyle.plain.write x))

/-- Checks the tolerance, which is not negative, and then the range, which is positive. -/
def validate (settings : Settings) : Except SetupError Unit :=
  if settings.cmpEpsilon.isNaN || settings.cmpEpsilon < 0.0 then
    .error (refusal "cmp_epsilon" ">= 0" settings.cmpEpsilon)
  else if settings.range.isNaN || settings.range ≤ 0.0 then
    .error (refusal "range" "> 0" settings.range)
  else
    .ok ()

def runGenerator (settings : Settings) : Generator :=
  .seeded settings.randomSeed

/--
The generator to draw from in a report step: a fresh one that depends on the seed and the step only, or
the running one as earlier steps left it.
-/
def generatorForStep (settings : Settings) (running : Generator) (step : UInt64) : Generator :=
  if settings.reseed then .seededForStep settings.randomSeed step else running

def applyRange (settings : Settings) (s : KeyedSet) : KeyedSet :=
  s.mapDefined fun x => if settings.range < x.abs then .undefined else .ofFloat x

/-- The number that reports show for a value. -/
def render (settings : Settings) (value : Value) : Float :=
  value.valueOr settings.undefinedValue

end Settings

end Quantities
