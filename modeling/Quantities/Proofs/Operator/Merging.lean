import Quantities.Proofs.Binary64.Multiplication
import Quantities.Proofs.Operator.Extremum
import Quantities.Proofs.Operator.Operands

/-!
# Merges keep what is there

A merge of two sets loses no number and makes none up.  A number without a partner comes out as it went
in, since the neutral number that stands for the partner changes no bit of it, and two numbers come out
as their sum, product or extremum.  The infinities that stand for missing operands never come out.
-/

namespace Quantities

open Binary64 KeyedSet

/-! ## Extrema of two numbers -/

theorem Extremum.exists_rule_eq (extremum : Extremum) (epsilon : Float) {x y : Float}
    (hx : x.isFinite = true) (hy : y.isFinite = true) :
    ∃ m, extremum.operator.rule epsilon (.defined x) (.defined y) = .defined m ∧ (m = x ∨ m = y) ∧
      extremum.Bounds m x ∧ extremum.Bounds m y := by
  have hxnan := isNaN_of_isFinite hx
  have hynan := isNaN_of_isFinite hy
  have hnan := extremum.isNaN_pick hxnan hynan
  refine ⟨extremum.pick x y, extremum.rule_defined epsilon hx hy, extremum.pick_eq_or x y, ?_, ?_⟩
  · rw [extremum.bounds_iff hnan hxnan, extremum.rank_pick hxnan hynan]
    exact le_max_left _ _
  · rw [extremum.bounds_iff hnan hynan, extremum.rank_pick hxnan hynan]
    exact le_max_right _ _

namespace Operator

variable {operator : Operator} {x y : Float}

def merges : List Operator :=
  [.mergeAdd, .mergeMultiply, .mergeMaximum, .mergeMinimum]

/-! ## Numbers without a partner -/

/-- What a merge makes of a number without a partner: addition turns `-0.0` into `0.0`. -/
def alone (operator : Operator) (x : Float) : Float :=
  if operator = .mergeAdd ∧ x = -0.0 then 0.0 else x

theorem isFinite_alone (operator : Operator) (hx : x.isFinite = true) :
    (operator.alone x).isFinite = true := by
  unfold alone
  split
  · rfl
  · exact hx

theorem alone_mergeAdd (x : Float) : alone .mergeAdd x = if x = -0.0 then 0.0 else x := by
  simp only [alone, true_and]

theorem alone_of_ne (h : operator ≠ .mergeAdd) (x : Float) : operator.alone x = x := by
  rw [alone, if_neg fun hboth => h hboth.1]

section Alone

variable (epsilon : Float)

theorem rule_alone_right (hoperator : operator ∈ merges) (hx : x.isFinite = true) :
    operator.rule epsilon (.defined x) .undefined = .defined (operator.alone x) := by
  have hfinite := operator.isFinite_alone hx
  fin_cases hoperator
  · show Value.ofFloat (x + 0.0) = _
    rw [add_zero_eq hx, ← alone_mergeAdd, Extremum.ofFloat_of_isFinite hfinite]
  · show Value.ofFloat (x * 1.0) = _
    rw [mul_one_eq hx, Extremum.ofFloat_of_isFinite hx, alone_of_ne (by decide)]
  · rw [alone_of_ne (by decide)]
    exact Extremum.largest.rule_undefined_right epsilon hx
  · rw [alone_of_ne (by decide)]
    exact Extremum.smallest.rule_undefined_right epsilon hx

theorem rule_alone_left (hoperator : operator ∈ merges) (hx : x.isFinite = true) :
    operator.rule epsilon .undefined (.defined x) = .defined (operator.alone x) := by
  rw [← rule_alone_right epsilon hoperator hx]
  fin_cases hoperator
  · exact congrArg Value.ofFloat (swap_add 0.0 x)
  · exact congrArg Value.ofFloat (swap_mul 1.0 x)
  · exact (Extremum.largest.rule_undefined_left epsilon hx).trans
      (Extremum.largest.rule_undefined_right epsilon hx).symm
  · exact (Extremum.smallest.rule_undefined_left epsilon hx).trans
      (Extremum.smallest.rule_undefined_right epsilon hx).symm

end Alone

/-! ## Two numbers -/

/-- A result of arithmetic, undefined only if the exact one is too large for a double. -/
def IsResult (merged : Value) (result : Float) (exact : ℚ) : Prop :=
  if result.isFinite then merged = .defined result
  else merged = .undefined ∧ beyond ≤ |rounded exact|

theorem isResult_ofFloat {result : Float} {exact : ℚ} (hnan : result.isNaN = false)
    (hexact : toRat result = clamped (rounded exact)) :
    IsResult (.ofFloat result) result exact := by
  unfold IsResult Value.ofFloat
  by_cases hfinite : result.isFinite = true
  · rw [if_pos hfinite, if_pos hfinite]
  · rw [if_neg hfinite, if_neg hfinite]
    exact ⟨rfl, beyond_le_of_not_isFinite hnan hexact (Bool.not_eq_true _ ▸ hfinite)⟩

def IsMergeOf (operator : Operator) (merged : Value) (x y : Float) : Prop :=
  match operator with
  | .mergeAdd => IsResult merged (x + y) (toRat x + toRat y)
  | .mergeMultiply => IsResult merged (x * y) (toRat x * toRat y)
  | .mergeMaximum => ∃ m, merged = .defined m ∧ (m = x ∨ m = y) ∧ x ≤ m ∧ y ≤ m
  | .mergeMinimum => ∃ m, merged = .defined m ∧ (m = x ∨ m = y) ∧ m ≤ x ∧ m ≤ y
  | _ => False

theorem isMergeOf_rule (epsilon : Float) (hoperator : operator ∈ merges) (hx : x.isFinite = true)
    (hy : y.isFinite = true) :
    operator.IsMergeOf (operator.rule epsilon (.defined x) (.defined y)) x y := by
  fin_cases hoperator
  · exact isResult_ofFloat (isNaN_add hx (isNaN_of_isFinite hy)) (toRat_add hx hy)
  · exact isResult_ofFloat (isNaN_mul hx hy) (toRat_mul hx hy)
  · exact Extremum.largest.exists_rule_eq epsilon hx hy
  · exact Extremum.smallest.exists_rule_eq epsilon hx hy

/-! ## Merged sets -/

/--
What two sets hold at a key is what their merge makes something of.  A number on one side only comes out
with the same bits, but for the sign of a zero in a sum; two numbers come out as their sum, product or
extremum, undefined only where a sum or a product is too large.  Every number that comes out is finite.
-/
theorem merge_keeps {lhs rhs : KeyedSet} (hlhs : Reachable lhs) (hrhs : Reachable rhs) :
    ∀ operator ∈ merges, ∀ epsilon, ∀ key ∈ (operator.eval epsilon lhs rhs).keys,
      (match operandsAt lhs rhs key with
      | (.undefined, .undefined) => (operator.eval epsilon lhs rhs).get key = .undefined
      | (.defined x, .undefined) | (.undefined, .defined x) =>
          (operator.eval epsilon lhs rhs).get key = .defined (operator.alone x)
      | (.defined x, .defined y) =>
          operator.IsMergeOf ((operator.eval epsilon lhs rhs).get key) x y) ∧
      ∀ z, (operator.eval epsilon lhs rhs).get key = .defined z → z.isFinite = true := by
  intro operator hoperator epsilon key hkey
  have hl := hlhs.wellFormed
  have hr := hrhs.wellFormed
  refine ⟨?_, fun z hz => ?_⟩
  · have hnormal := hl.isNormal_operandsAt hr key
    rw [operator.get_eval epsilon hl hr hkey]
    generalize operandsAt lhs rhs key = operands at hnormal ⊢
    obtain ⟨l, r⟩ := operands
    cases l with
    | undefined =>
        cases r with
        | undefined => rfl
        | defined y => exact rule_alone_left epsilon hoperator hnormal.2
    | defined x =>
        cases r with
        | undefined => exact rule_alone_right epsilon hoperator hnormal.1
        | defined y => exact isMergeOf_rule epsilon hoperator hnormal.1 hnormal.2
  · have hnormal := (operator.wellFormed_eval epsilon hl hr).isNormal_get key
    rw [hz] at hnormal
    exact hnormal

theorem merge_keeps_of_wells :
    let first := (((bare "WA" .well).push "P1" (.defined (-0.0))).push "P2" .undefined).push "P3"
      (.defined Binary64.largest)
    let second := ((bare "WB" .well).push "P3" (.defined Binary64.largest)).push "P4" (.defined (-0.0))
    Reachable first ∧ Reachable second ∧
      (mergeAdd.eval 0.0 first second).get "P1" = .defined 0.0 ∧
      (mergeMultiply.eval 0.0 first second).get "P4" = .defined (-0.0) ∧
      (mergeMinimum.eval 0.0 first second).get "P2" = .undefined ∧
      mergeMaximum.IsMergeOf ((mergeMaximum.eval 0.0 first second).get "P3") largest largest ∧
      mergeAdd.IsMergeOf ((mergeAdd.eval 0.0 first second).get "P3") largest largest := by
  intro first second
  have hfirst : KeyedSet.ofEntries "WA" .well [("P1", .defined (-0.0)), ("P2", .undefined),
      ("P3", .defined Binary64.largest)] = .ok first := rfl
  have hsecond : KeyedSet.ofEntries "WB" .well [("P3", .defined Binary64.largest),
      ("P4", .defined (-0.0))] = .ok second := rfl
  have hkeeps := merge_keeps (.ofEntries hfirst) (.ofEntries hsecond)
  exact ⟨.ofEntries hfirst, .ofEntries hsecond,
    (hkeeps .mergeAdd (by decide) 0.0 "P1" (by decide +kernel)).1,
    (hkeeps .mergeMultiply (by decide) 0.0 "P4" (by decide +kernel)).1,
    (hkeeps .mergeMinimum (by decide) 0.0 "P2" (by decide +kernel)).1,
    (hkeeps .mergeMaximum (by decide) 0.0 "P3" (by decide +kernel)).1,
    (hkeeps .mergeAdd (by decide) 0.0 "P3" (by decide +kernel)).1⟩

end Operator

end Quantities
