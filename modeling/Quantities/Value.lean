import Quantities.Decimal.Style

/-!
# Values

A value is a number or *undefined*.  Undefined stands for "no applicable value", as for a well that is
not drilled yet or a division by zero, and is not a kind of zero.  Checked construction keeps numbers
finite; a number that was wrapped unchecked is checked again when it enters a set.
-/

namespace Quantities

/-- A number, or the absence of an applicable one. -/
inductive Value where
  | defined (number : Float)
  | undefined
deriving BEq, DecidableEq

instance : Inhabited Value where
  default := .undefined

namespace Value

/-- The checked value of a number: NaN and the infinities are undefined. -/
def ofFloat (x : Float) : Value :=
  if x.isFinite then .defined x else .undefined

def ofOption : Option Float → Value
  | some x => ofFloat x
  | none => .undefined

def number? : Value → Option Float
  | .defined x => some x
  | .undefined => none

def isDefined : Value → Bool
  | .defined _ => true
  | .undefined => false

def isUndefined (value : Value) : Bool :=
  !value.isDefined

def valueOr (value : Value) (fallback : Float) : Float :=
  match value with
  | .defined x => x
  | .undefined => fallback

/-- Continues with the number of a defined value; the answer is not checked again. -/
def andThen (value : Value) (f : Float → Value) : Value :=
  match value with
  | .defined x => f x
  | .undefined => .undefined

def map (value : Value) (f : Float → Float) : Value :=
  value.andThen fun x => ofFloat (f x)

/-- Checks a number that may have been wrapped unchecked. -/
def normalized (value : Value) : Value :=
  value.andThen ofFloat

def indicator (flag : Bool) : Value :=
  .defined (if flag then 1.0 else 0.0)

def text : Value → String
  | .defined x => String.ofList (NumberStyle.plain.write x)
  | .undefined => "UNDEFINED"

/-- A value that is undefined or finite, as every value of a set is. -/
def IsNormal : Value → Prop
  | .defined x => x.isFinite = true
  | .undefined => True

instance (value : Value) : Decidable value.IsNormal :=
  match value with
  | .defined x => inferInstanceAs (Decidable (x.isFinite = true))
  | .undefined => inferInstanceAs (Decidable True)

theorem isNormal_ofFloat (x : Float) :
    (ofFloat x).IsNormal := by
  unfold ofFloat
  split
  · next h => exact h
  · trivial

theorem isNormal_normalized (value : Value) :
    value.normalized.IsNormal := by
  cases value with
  | defined x => exact isNormal_ofFloat x
  | undefined => trivial

theorem normalized_of_isNormal {value : Value} (h : value.IsNormal) :
    value.normalized = value := by
  cases value with
  | defined x =>
      have hx : x.isFinite = true := h
      simp [normalized, andThen, ofFloat, hx]
  | undefined => rfl

@[simp] theorem normalized_normalized (value : Value) :
    value.normalized.normalized = value.normalized :=
  normalized_of_isNormal (isNormal_normalized value)

end Value

end Quantities
