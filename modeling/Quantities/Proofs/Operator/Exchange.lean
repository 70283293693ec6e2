import Quantities.Proofs.Operator.Comparison
import Quantities.Proofs.Operator.Merging
import Quantities.Proofs.Value.Related

/-!
# Exchanged operands

Sums, products, extrema and tests of equality do not depend on which of two sets comes first, and one
strict comparison is the other with its operands exchanged.  Exchanging a scalar-typed set with a keyed one
goes from one side of the broadcast to the other; exchanging two keyed sets reverses the order in which
their keys are united.
-/

namespace Quantities

open Binary64 KeyedSet

namespace KeyedSet

variable {lhs rhs : KeyedSet}

/-- The operands under a key change sides with the sets, if these are not both scalar-typed. -/
theorem operandsAt_swap (hkinds : (lhs.kind.isScalar && rhs.kind.isScalar) = false) (key : String) :
    operandsAt rhs lhs key = (operandsAt lhs rhs key).swap := by
  unfold operandsAt
  cases hlkind : lhs.kind.isScalar with
  | true =>
      rw [hlkind, Bool.true_and] at hkinds
      rw [hkinds]
      rfl
  | false => cases rhs.kind.isScalar <;> rfl

end KeyedSet

namespace Operator

variable {operator : Operator} {x y : Float}

def symmetric : List Operator :=
  [.add, .multiply, .mergeAdd, .mergeMultiply, .mergeMaximum, .mergeMinimum, .equal, .unequal]

/-! ## Exchanged values -/

theorem sameNumber_rule_swap_of_extremum (extremum : Extremum) (epsilon : Float)
    (hx : x.isFinite = true) (hy : y.isFinite = true) :
    (extremum.operator.rule epsilon (.defined x) (.defined y)).SameNumber
      (extremum.operator.rule epsilon (.defined y) (.defined x)) := by
  have hxnan := isNaN_of_isFinite hx
  have hynan := isNaN_of_isFinite hy
  rw [extremum.rule_defined epsilon hx hy, extremum.rule_defined epsilon hy hx]
  refine .defined ?_
  -- Of two equal numbers the first is kept, so only the ranks agree, and zeros may differ in sign.
  have hrank : extremum.rank (extremum.pick x y) = extremum.rank (extremum.pick y x) := by
    rw [extremum.rank_pick hxnan hynan, extremum.rank_pick hynan hxnan, max_comm]
  rwa [← extremum.beq_iff_rank_eq (extremum.isNaN_pick hxnan hynan) (extremum.isNaN_pick hynan hxnan),
    beq_iff (extremum.isNaN_pick hxnan hynan) (extremum.isNaN_pick hynan hxnan)] at hrank

theorem within_swap (epsilon : Float) (hx : x.isFinite = true) (hy : y.isFinite = true) :
    (x - y).abs ≤ tolerance epsilon ↔ (y - x).abs ≤ tolerance epsilon := by
  show equal.holds epsilon x y ↔ equal.holds epsilon y x
  rw [equal_iff hx hy, equal_iff hy hx, abs_sub_comm]

section Rule

variable (epsilon : Float)

theorem sameNumber_ofNumbers_swap (hoperator : operator ∈ symmetric) (hx : x.isFinite = true)
    (hy : y.isFinite = true) :
    (operator.ofNumbers epsilon x y).SameNumber (operator.ofNumbers epsilon y x) := by
  cases operator with
  | add | mergeAdd => exact .of_eq (congrArg Value.ofFloat (swap_add x y))
  | multiply | mergeMultiply => exact .of_eq (congrArg Value.ofFloat (swap_mul x y))
  | mergeMaximum => exact sameNumber_rule_swap_of_extremum .largest epsilon hx hy
  | mergeMinimum => exact sameNumber_rule_swap_of_extremum .smallest epsilon hx hy
  | equal | unequal =>
      apply Value.SameNumber.of_eq
      simp only [ofNumbers, within_swap epsilon hx hy]
  | _ => exact absurd hoperator (by decide)

/-- Exchanging the operands leaves a number without a partner alone. -/
theorem rule_swap_undefined (hoperator : operator ∈ symmetric) (hx : x.isFinite = true) :
    operator.rule epsilon (.defined x) .undefined = operator.rule epsilon .undefined (.defined x) := by
  by_cases hmerges : operator ∈ merges
  · rw [rule_alone_right epsilon hmerges hx, rule_alone_left epsilon hmerges hx]
  · fin_cases hoperator <;> first | rfl | exact absurd (by decide) hmerges

theorem sameNumber_rule_swap (hoperator : operator ∈ symmetric) {l r : Value} (hl : l.IsNormal)
    (hr : r.IsNormal) : (operator.rule epsilon l r).SameNumber (operator.rule epsilon r l) := by
  cases l with
  | undefined =>
      cases r with
      | undefined => exact .undefined
      | defined y => exact .of_eq (rule_swap_undefined epsilon hoperator hr).symm
  | defined x =>
      cases r with
      | undefined => exact .of_eq (rule_swap_undefined epsilon hoperator hl)
      | defined y => exact sameNumber_ofNumbers_swap epsilon hoperator hl hr

theorem rule_less_eq_greater (l r : Value) : less.rule epsilon l r = greater.rule epsilon r l := by
  cases l <;> cases r <;> rfl

end Rule

/-! ## Exchanged sets -/

section Sets

variable {lhs rhs : KeyedSet} (hlhs : lhs.WellFormed) (hrhs : rhs.WellFormed)
  (hkinds : (lhs.kind.isScalar && rhs.kind.isScalar) = false)
include hlhs hrhs hkinds

theorem mem_keys_eval_swap (operator other : Operator) (epsilon : Float) (key : String) :
    key ∈ (operator.eval epsilon lhs rhs).keys ↔ key ∈ (other.eval epsilon rhs lhs).keys := by
  cases hlkind : lhs.kind.isScalar with
  | true =>
      rw [hlkind, Bool.true_and] at hkinds
      rw [operator.keys_eval_of_scalar_left epsilon hkinds hlkind,
        other.keys_eval_of_scalar_right epsilon hlkind]
  | false =>
      cases hrkind : rhs.kind.isScalar with
      | true =>
          rw [operator.keys_eval_of_scalar_right epsilon hrkind,
            other.keys_eval_of_scalar_left epsilon hlkind hrkind]
      | false =>
          rw [eval, eval, keys_combine_of_keyed _ hlkind hrkind, keys_combine_of_keyed _ hrkind hlkind,
            hlhs.mem_keyUnion, hrhs.mem_keyUnion, or_comm]

theorem perm_keys_eval_swap (operator other : Operator) (epsilon : Float) :
    (operator.eval epsilon lhs rhs).keys.Perm (other.eval epsilon rhs lhs).keys := by
  rw [List.perm_ext_iff_of_nodup (operator.wellFormed_eval epsilon hlhs hrhs).keys_nodup
    (other.wellFormed_eval epsilon hrhs hlhs).keys_nodup]
  exact mem_keys_eval_swap hlhs hrhs hkinds operator other epsilon

/-- What the rules of two operators make of exchanged values is what the operators make of exchanged
sets. -/
theorem related_get_eval_swap {R : Float → Float → Prop} (operator other : Operator) (epsilon : Float)
    (hrule : ∀ l r : Value, l.IsNormal → r.IsNormal →
      Value.Related R (operator.rule epsilon l r) (other.rule epsilon r l)) (key : String) :
    Value.Related R ((operator.eval epsilon lhs rhs).get key) ((other.eval epsilon rhs lhs).get key) := by
  have hmem := mem_keys_eval_swap hlhs hrhs hkinds operator other epsilon key
  by_cases hkey : key ∈ (operator.eval epsilon lhs rhs).keys
  · have hnormal := hlhs.isNormal_operandsAt hrhs key
    rw [operator.get_eval epsilon hlhs hrhs hkey, other.get_eval epsilon hrhs hlhs (hmem.mp hkey),
      operandsAt_swap hkinds]
    exact hrule _ _ hnormal.1 hnormal.2
  · rw [(operator.wellFormed_eval epsilon hlhs hrhs).get_of_notMem hkey,
      (other.wellFormed_eval epsilon hrhs hlhs).get_of_notMem fun h => hkey (hmem.mpr h)]
    exact .undefined

omit hlhs hrhs in
/-- A broadcast gives a set of the kind of the keyed operand, on whichever side that is. -/
theorem kind_eval_swap (hsingle : (lhs.kind.isScalar || rhs.kind.isScalar) = true)
    (operator other : Operator) (epsilon : Float) :
    (operator.eval epsilon lhs rhs).kind = (other.eval epsilon rhs lhs).kind := by
  unfold eval
  cases hlkind : lhs.kind.isScalar with
  | true =>
      rw [hlkind, Bool.true_and] at hkinds
      rw [combine_of_scalar_left _ hlkind hkinds, combine_of_scalar_right _ hlkind, kind_renamed,
        kind_mapValues, kind_mapValues]
  | false =>
      rw [hlkind, Bool.false_or] at hsingle
      rw [combine_of_scalar_right _ hsingle, combine_of_scalar_left _ hsingle hlkind, kind_renamed,
        kind_mapValues, kind_mapValues]

end Sets

/--
Unless both sets are scalar-typed, exchanging them keeps what a symmetric operator gives under each key,
up to the sign of a zero, and what one strict comparison gives is what the other gives of the exchanged
sets.  The keys are the same in another order, and the kind can change for two keyed sets only.
-/
theorem eval_exchange {lhs rhs : KeyedSet} (hlhs : Reachable lhs) (hrhs : Reachable rhs)
    (hkinds : (lhs.kind.isScalar && rhs.kind.isScalar) = false) (epsilon : Float) :
    (∀ operator ∈ symmetric, ∀ key, ((operator.eval epsilon lhs rhs).get key).SameNumber
      ((operator.eval epsilon rhs lhs).get key)) ∧
    (∀ key, (less.eval epsilon lhs rhs).get key = (greater.eval epsilon rhs lhs).get key) ∧
    ∀ operator other : Operator,
      (operator.eval epsilon lhs rhs).keys.Perm (other.eval epsilon rhs lhs).keys ∧
      ((lhs.kind.isScalar || rhs.kind.isScalar) = true →
        (operator.eval epsilon lhs rhs).kind = (other.eval epsilon rhs lhs).kind) := by
  have hl := hlhs.wellFormed
  have hr := hrhs.wellFormed
  refine ⟨fun operator hoperator key => ?_, fun key => ?_, fun operator other => ⟨?_, fun hsingle => ?_⟩⟩
  · apply related_get_eval_swap hl hr hkinds
    intro l r hlnormal hrnormal
    exact sameNumber_rule_swap epsilon hoperator hlnormal hrnormal
  · rw [← Value.related_eq_iff]
    apply related_get_eval_swap hl hr hkinds
    intro l r _ _
    exact Value.related_eq_iff.mpr (rule_less_eq_greater epsilon l r)
  · exact perm_keys_eval_swap hl hr hkinds operator other epsilon
  · exact kind_eval_swap hkinds hsingle operator other epsilon

theorem eval_exchange_of_rates :
    let rates := ((bare "WA" .well).push "P1" (.defined 0.0)).push "P2" (.defined 3.0)
    let limits := (((bare "GB" .group).push "P2" (.defined 2.0)).push "P3" .undefined).push "P1"
      (.defined (-0.0))
    let offset := KeyedSet.field "FC" (.defined 1.0)
    Reachable rates ∧ Reachable limits ∧ Reachable offset ∧
      ((mergeMaximum.eval 0.0 rates limits).get "P1").SameNumber
        ((mergeMaximum.eval 0.0 limits rates).get "P1") ∧
      (mergeMaximum.eval 0.0 rates limits).get "P1" ≠ (mergeMaximum.eval 0.0 limits rates).get "P1" ∧
      (less.eval 0.0 rates limits).get "P2" = (greater.eval 0.0 limits rates).get "P2" ∧
      ["P1", "P2", "P3"].Perm (add.eval 0.0 limits rates).keys ∧
      (add.eval 0.0 offset rates).kind = (add.eval 0.0 rates offset).kind := by
  intro rates limits offset
  have hrates : KeyedSet.ofEntries "WA" .well [("P1", .defined 0.0), ("P2", .defined 3.0)] =
      .ok rates := rfl
  have hlimits : KeyedSet.ofEntries "GB" .group [("P2", .defined 2.0), ("P3", .undefined),
      ("P1", .defined (-0.0))] = .ok limits := rfl
  obtain ⟨hsymmetric, hcompared, hframe⟩ :=
    eval_exchange (.ofEntries hrates) (.ofEntries hlimits) rfl 0.0
  obtain ⟨-, -, hbroadcast⟩ :=
    eval_exchange (.field "FC" (.defined 1.0)) (.ofEntries hrates) rfl 0.0
  exact ⟨.ofEntries hrates, .ofEntries hlimits, .field "FC" (.defined 1.0),
    hsymmetric .mergeMaximum (by decide) "P1", by decide +kernel, hcompared "P2", (hframe add add).1,
    (hbroadcast add add).2 rfl⟩

end Operator

end Quantities
