import Quantities.Proofs.Binary64.ZeroSign
import Quantities.Proofs.Transform.Pointwise
import Quantities.Proofs.Value.Related

/-!
# Values up to the sign of zero

Two values are alike if they are the same up to the sign of a zero.  Normal values are alike when both are
undefined or both stand for the same number.  The rules of operators, the pointwise transforms and the
range check give alike values of alike ones: where an infinity would tell the zeros apart, the value is
undefined for both.
-/

namespace Quantities

open Binary64

namespace Value

/-- Both values are undefined, or both are numbers that are the same up to the sign of a zero. -/
def Alike : Value → Value → Prop :=
  Related Binary64.Alike

variable {l r : Value} {x y : Float}

theorem Alike.of_eq (h : l = r) : l.Alike r :=
  Related.of_eq Binary64.Alike.refl h

theorem Alike.sameNumber (h : l.Alike r) : l.SameNumber r :=
  Related.imp (fun _ _ hxy => hxy.toRat_eq) h

theorem SameNumber.alike (h : l.SameNumber r) (hl : l.IsNormal) (hr : r.IsNormal) : l.Alike r := by
  cases h with
  | undefined => exact .undefined
  | defined h => exact .defined (.of_toRat_eq hl hr h)

theorem Alike.ofFloat (h : Binary64.Alike x y) : (ofFloat x).Alike (ofFloat y) := by
  unfold Value.ofFloat
  rw [h.isFinite_eq]
  split
  · exact .defined h
  · exact .undefined

theorem Alike.normalized (h : l.Alike r) : l.normalized.Alike r.normalized := by
  cases h with
  | undefined => exact .undefined
  | defined h => exact .ofFloat h

theorem ofFloat_of_not_isFinite (h : x.isFinite = false) : ofFloat x = .undefined := by
  rw [ofFloat, h]
  rfl

end Value

namespace Operator

variable (operator : Operator) (epsilon : Float) {w x y z : Float} {l l' r r' : Value}

theorem alike_quotient (hw : Alike w x) (hy : Alike y z) :
    (quotient w y).Alike (quotient x z) := by
  unfold quotient
  rw [hy.beq_eq (.refl 0.0)]
  split
  · exact .undefined
  · next hz =>
    rw [← hy.symm.eq_of_bne_zero hz]
    exact .ofFloat (hw.div z)

theorem alike_powerOf (hw : Alike w x) (hy : Alike y z) :
    (powerOf w y).Alike (powerOf x z) := by
  unfold powerOf
  simp only [hw.lt_iff (.refl 0.0), hy.isInteger_eq, hy.power_exponent]
  split
  · exact .undefined
  · rcases hw.power_base z with halike | ⟨hwinfinite, hxinfinite⟩
    · exact .ofFloat halike
    · rw [Value.ofFloat_of_not_isFinite hwinfinite, Value.ofFloat_of_not_isFinite hxinfinite]
      exact .undefined

theorem quotient_eq_ofNumbers (x y : Float) : quotient x y = divide.ofNumbers epsilon x y :=
  kernel_eq_rule .divide epsilon (.defined x) (.defined y)

theorem powerOf_eq_ofNumbers (x y : Float) : powerOf x y = power.ofNumbers epsilon x y :=
  kernel_eq_rule .power epsilon (.defined x) (.defined y)

theorem alike_ofNumbers (hw : Alike w x) (hy : Alike y z) :
    (operator.ofNumbers epsilon w y).Alike (operator.ofNumbers epsilon x z) := by
  have htolerance := Alike.refl (tolerance epsilon)
  cases operator with
  | equal | unequal =>
      apply Value.Alike.of_eq
      simp only [ofNumbers, (hw.sub hy).abs.le_iff htolerance]
  | atMost =>
      apply Value.Alike.of_eq
      simp only [ofNumbers, hw.le_iff (hy.add htolerance)]
  | atLeast =>
      apply Value.Alike.of_eq
      simp only [ofNumbers, (hy.sub htolerance).le_iff hw]
  | less =>
      apply Value.Alike.of_eq
      simp only [ofNumbers, hw.lt_iff hy]
  | greater =>
      apply Value.Alike.of_eq
      simp only [ofNumbers, hy.lt_iff hw]
  | add | mergeAdd => exact .ofFloat (hw.add hy)
  | subtract => exact .ofFloat (hw.sub hy)
  | multiply | mergeMultiply => exact .ofFloat (hw.mul hy)
  | divide =>
      rw [← quotient_eq_ofNumbers epsilon, ← quotient_eq_ofNumbers epsilon]
      exact alike_quotient hw hy
  | power =>
      rw [← powerOf_eq_ofNumbers epsilon, ← powerOf_eq_ofNumbers epsilon]
      exact alike_powerOf hw hy
  | mergeMaximum => exact .ofFloat (hw.larger hy)
  | mergeMinimum => exact .ofFloat (hw.smaller hy)

theorem alike_rule (hl : l.Alike l') (hr : r.Alike r') :
    (operator.rule epsilon l r).Alike (operator.rule epsilon l' r') := by
  cases hl with
  | undefined =>
      cases hr with
      | undefined => exact .undefined
      | defined hy =>
          simp only [rule]
          cases operator.neutral? with
          | none => exact .undefined
          | some neutral => exact operator.alike_ofNumbers epsilon (.refl neutral) hy
  | defined hx =>
      cases hr with
      | undefined =>
          simp only [rule]
          cases operator.neutral? with
          | none => exact .undefined
          | some neutral => exact operator.alike_ofNumbers epsilon hx (.refl neutral)
      | defined hy => exact operator.alike_ofNumbers epsilon hx hy

end Operator

namespace Transform

variable {x y : Float} {l r : Value}

theorem alike_logarithm (log : Float → Float) (h : Alike x y) :
    (logarithm log x).Alike (logarithm log y) := by
  unfold logarithm
  by_cases hx : x ≤ 0.0
  · rw [if_pos hx, if_pos ((h.le_iff (.refl 0.0)).mp hx)]
    exact .undefined
  · rw [h.eq_of_not_le_zero hx]
    exact .of_eq rfl

theorem alike_onValue (transform : Transform) (h : l.Alike r) :
    (transform.onValue l).Alike (transform.onValue r) := by
  cases h with
  | undefined => exact .of_eq rfl
  | defined h =>
      cases transform with
      | magnitude => exact .ofFloat h.abs
      | exponential =>
          simp only [onValue, saturatedExp, h.exp_eq]
          exact .of_eq rfl
      | naturalLog => exact alike_logarithm ln h
      | decimalLog => exact alike_logarithm log10 h
      | nearestInteger => exact .ofFloat h.nearestInteger
      | definedFlag | undefinedFlag | clear => exact .of_eq rfl
      | ascending | descending => exact .defined h

end Transform

theorem Settings.alike_inRange (settings : Settings) {l r : Value} (h : l.Alike r) :
    (settings.inRange l).Alike (settings.inRange r) := by
  cases h with
  | undefined => exact .undefined
  | defined h =>
      simp only [inRange, (Alike.refl settings.range).lt_iff h.abs]
      split
      · exact .undefined
      · exact .ofFloat h

end Quantities
