import Quantities.Proofs.Operator.Broadcast

/-!
# Operands of entries

Whichever sets an operator pairs or broadcasts, every entry of its result is its rule on two values of the
arguments, and the name, the kind and the keys of the result do not depend on the operator.
-/

namespace Quantities

namespace KeyedSet

variable {s t lhs rhs : KeyedSet} {key : String}

def operandsAt (lhs rhs : KeyedSet) (key : String) : Value × Value :=
  match lhs.kind.isScalar, rhs.kind.isScalar with
  | true, false => (lhs.scalarValue, rhs.get key)
  | _, true => (lhs.get key, rhs.scalarValue)
  | false, false => (lhs.get key, rhs.get key)

theorem WellFormed.isNormal_scalarValue (h : s.WellFormed) : s.scalarValue.IsNormal := by
  rw [scalarValue_eq_headD]
  cases hvalues : s.values with
  | nil => trivial
  | cons value rest =>
      apply h.isNormal
      rw [hvalues]
      exact List.mem_cons_self

theorem WellFormed.isNormal_operandsAt (hlhs : lhs.WellFormed) (hrhs : rhs.WellFormed)
    (key : String) :
    (operandsAt lhs rhs key).1.IsNormal ∧ (operandsAt lhs rhs key).2.IsNormal := by
  unfold operandsAt
  split
  · exact ⟨hlhs.isNormal_scalarValue, hrhs.isNormal_get key⟩
  · exact ⟨hlhs.isNormal_get key, hrhs.isNormal_scalarValue⟩
  · exact ⟨hlhs.isNormal_get key, hrhs.isNormal_get key⟩

/-! ## What does not depend on the operator -/

/-- Two sets that differ in their values at most. -/
structure SameFrame (s t : KeyedSet) : Prop where
  name_eq : s.name = t.name
  kind_eq : s.kind = t.kind
  keys_eq : s.keys = t.keys

theorem SameFrame.symm (h : SameFrame s t) : SameFrame t s :=
  ⟨h.name_eq.symm, h.kind_eq.symm, h.keys_eq.symm⟩

theorem SameFrame.trans {u : KeyedSet} (hst : SameFrame s t) (htu : SameFrame t u) : SameFrame s u :=
  ⟨hst.name_eq.trans htu.name_eq, hst.kind_eq.trans htu.kind_eq, hst.keys_eq.trans htu.keys_eq⟩

theorem SameFrame.eq_of_values_eq (h : SameFrame s t) (hs : s.WellFormed) (ht : t.WellFormed)
    (hvalues : s.values = t.values) : s = t :=
  hs.ext ht h.name_eq h.kind_eq h.keys_eq hvalues

theorem sameFrame_combine (f g : Value → Value → Value) (lhs rhs : KeyedSet) :
    SameFrame (combine f lhs rhs) (combine g lhs rhs) := by
  cases hrkind : rhs.kind.isScalar with
  | true =>
      rw [combine_of_scalar_right f hrkind, combine_of_scalar_right g hrkind]
      exact ⟨rfl, rfl, rfl⟩
  | false =>
      cases hlkind : lhs.kind.isScalar with
      | true =>
          rw [combine_of_scalar_left f hlkind hrkind, combine_of_scalar_left g hlkind hrkind]
          exact ⟨rfl, rfl, rfl⟩
      | false =>
          refine ⟨?_, ?_, ?_⟩
          · rw [name_combine_of_keyed f hlkind hrkind, name_combine_of_keyed g hlkind hrkind]
          · rw [kind_combine_of_keyed f hlkind hrkind, kind_combine_of_keyed g hlkind hrkind]
          · rw [keys_combine_of_keyed f hlkind hrkind, keys_combine_of_keyed g hlkind hrkind]

end KeyedSet

namespace Operator

open KeyedSet

variable (operator : Operator) (epsilon : Float) {lhs rhs : KeyedSet} {key : String}

theorem get_eval (hlhs : lhs.WellFormed) (hrhs : rhs.WellFormed)
    (hkey : key ∈ (operator.eval epsilon lhs rhs).keys) :
    (operator.eval epsilon lhs rhs).get key =
      operator.rule epsilon (operandsAt lhs rhs key).1 (operandsAt lhs rhs key).2 := by
  unfold operandsAt
  cases hrkind : rhs.kind.isScalar with
  | true =>
      rw [operator.keys_eval_of_scalar_right epsilon hrkind] at hkey
      rw [operator.get_eval_of_scalar_right epsilon hlhs hrkind hkey]
      cases lhs.kind.isScalar <;> rfl
  | false =>
      cases hlkind : lhs.kind.isScalar with
      | true =>
          rw [operator.keys_eval_of_scalar_left epsilon hrkind hlkind] at hkey
          exact operator.get_eval_of_scalar_left epsilon hrhs hrkind hlkind hkey
      | false => exact operator.get_eval_of_keyed epsilon hlhs hrhs hlkind hrkind key

end Operator

end Quantities
