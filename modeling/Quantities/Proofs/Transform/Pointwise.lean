import Quantities.Proofs.Operator.Operands
import Quantities.Settings
import Quantities.Transform

/-!
# Pointwise functions of one set

Every transform but the sorts, and the range check of the settings, treats each value apart from the
others.  What it makes of a value is said here apart from sets.
-/

namespace Quantities

namespace Transform

theorem sameFrame_eval (transform : Transform) (s : KeyedSet) :
    KeyedSet.SameFrame (transform.eval s) s := by
  cases transform <;> exact ⟨rfl, rfl, rfl⟩

theorem index_eval (transform : Transform) (s : KeyedSet) : (transform.eval s).index = s.index := by
  cases transform <;> rfl

/-- Treats each value apart from the others, as all transforms but the sorts do. -/
def isPointwise : Transform → Bool
  | .ascending | .descending => false
  | _ => true

/-- The value that a transform gives to a value on its own; a sort leaves it as it is. -/
def onValue : Transform → Value → Value
  | .magnitude, .defined x => .ofFloat x.abs
  | .exponential, .defined x => .ofFloat (saturatedExp x)
  | .naturalLog, .defined x => logarithm Binary64.ln x
  | .decimalLog, .defined x => logarithm Binary64.log10 x
  | .nearestInteger, .defined x => .ofFloat (Binary64.nearestInteger x)
  | .definedFlag, value => .indicator value.isDefined
  | .undefinedFlag, value => .indicator value.isUndefined
  | .ascending, value | .descending, value => value
  | _, _ => .undefined

theorem eval_of_isPointwise {transform : Transform} (h : transform.isPointwise = true)
    (s : KeyedSet) : transform.eval s = s.mapValues transform.onValue := by
  have hcongr : ∀ {f : Value → Value}, (∀ value, f value = transform.onValue value) →
      s.mapValues f = s.mapValues transform.onValue := fun hf => by rw [funext hf]
  cases transform with
  | ascending | descending => cases h
  | definedFlag | undefinedFlag => rfl
  | _ => exact hcongr fun value => by cases value <;> rfl

theorem isNormal_logarithm (log : Float → Float) (x : Float) : (logarithm log x).IsNormal := by
  unfold logarithm
  split
  · trivial
  · exact Value.isNormal_ofFloat _

theorem isNormal_onValue {transform : Transform} (h : transform.isPointwise = true)
    (value : Value) : (transform.onValue value).IsNormal := by
  cases transform with
  | ascending | descending => cases h
  | definedFlag | undefinedFlag => exact Operator.isNormal_indicator _
  | clear => trivial
  | naturalLog | decimalLog =>
      cases value with
      | defined x => exact isNormal_logarithm _ x
      | undefined => trivial
  | _ =>
      cases value with
      | defined x => exact Value.isNormal_ofFloat _
      | undefined => trivial

theorem values_eval_of_isPointwise {transform : Transform} (h : transform.isPointwise = true)
    (s : KeyedSet) : (transform.eval s).values = s.values.map transform.onValue := by
  rw [eval_of_isPointwise h, KeyedSet.values_mapValues_of_isNormal (isNormal_onValue h)]

end Transform

namespace Settings

def inRange (settings : Settings) : Value → Value
  | .defined x => if settings.range < x.abs then .undefined else .ofFloat x
  | .undefined => .undefined

theorem applyRange_eq_mapValues (settings : Settings) (s : KeyedSet) :
    settings.applyRange s = s.mapValues settings.inRange := by
  have hvalue : (fun value => Value.andThen value fun x =>
      if settings.range < x.abs then .undefined else .ofFloat x) = settings.inRange := by
    funext value
    cases value <;> rfl
  rw [applyRange, KeyedSet.mapDefined, hvalue]

theorem isNormal_inRange (settings : Settings) (value : Value) :
    (settings.inRange value).IsNormal := by
  cases value with
  | defined x =>
      simp only [inRange]
      split
      · trivial
      · exact Value.isNormal_ofFloat x
  | undefined => trivial

end Settings

end Quantities
