import Quantities.Binary64.Elementary
import Quantities.KeyedSet.Threaded

/-!
# Functions of one set

Functions that give a set over the same keys: elementwise functions, sorting, and flags of
definedness.  Name, kind and keys are those of the argument.
-/

namespace Quantities

namespace KeyedSet

/-- Puts the next of the waiting numbers in place of a defined value. -/
def layBack (waiting : List Float) (value : Value) : Value × List Float :=
  match value, waiting with
  | .defined _, x :: rest => (.defined x, rest)
  | .defined _, [] => (.undefined, [])
  | .undefined, waiting => (.undefined, waiting)

def sortedBy (s : KeyedSet) (before : Float → Float → Bool) : KeyedSet :=
  (s.mapThreaded layBack (s.definedValues.mergeSort before)).1

end KeyedSet

inductive Transform where
  | magnitude
  | definedFlag
  | exponential
  | undefinedFlag
  | naturalLog
  | decimalLog
  | nearestInteger
  | ascending
  | descending
  | clear
deriving DecidableEq, Repr

namespace Transform

def all : List Transform :=
  [.magnitude, .definedFlag, .exponential, .undefinedFlag, .naturalLog, .decimalLog, .nearestInteger,
    .ascending, .descending, .clear]

def name : Transform → String
  | .magnitude => "ABS"
  | .definedFlag => "DEF"
  | .exponential => "EXP"
  | .undefinedFlag => "IDV"
  | .naturalLog => "LN"
  | .decimalLog => "LOG"
  | .nearestInteger => "NINT"
  | .ascending => "SORTA"
  | .descending => "SORTD"
  | .clear => "UNDEF"

def saturatedExp (x : Float) : Float :=
  Binary64.smaller (Binary64.exp x) Binary64.largest

/-- A logarithm of positive numbers; of other numbers it is undefined. -/
def logarithm (log : Float → Float) (x : Float) : Value :=
  if x ≤ 0.0 then .undefined else .ofFloat (log x)

def eval (transform : Transform) (s : KeyedSet) : KeyedSet :=
  match transform with
  | .magnitude => s.mapDefined fun x => .ofFloat x.abs
  | .definedFlag => s.mapValues fun value => .indicator value.isDefined
  | .exponential => s.mapDefined fun x => .ofFloat (saturatedExp x)
  | .undefinedFlag => s.mapValues fun value => .indicator value.isUndefined
  | .naturalLog => s.mapDefined (logarithm Binary64.ln)
  | .decimalLog => s.mapDefined (logarithm Binary64.log10)
  | .nearestInteger => s.mapDefined fun x => .ofFloat (Binary64.nearestInteger x)
  | .ascending => s.sortedBy Binary64.precedes
  | .descending => s.sortedBy fun x y => Binary64.precedes y x
  | .clear => s.mapValues fun _ => .undefined

end Transform

end Quantities
