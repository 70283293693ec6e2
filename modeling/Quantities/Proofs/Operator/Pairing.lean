import Quantities.Proofs.KeyedSet.Reachable
import Quantities.Proofs.Operator.Kernel

/-!
# Pairing of keyed sets

An operator on two keyed sets is its rule applied key by key, over the keys of the first set followed by
those that only the second holds.
-/

namespace Quantities

namespace KeyedSet

variable {s t : KeyedSet}

/-! ## Two keyed sets -/

theorem WellFormed.missingKeys_eq (h : s.WellFormed) :
    s.missingKeys t = t.keys.filter fun key => key ∉ s.keys := by
  apply List.filter_congr
  intro key _
  rw [Bool.eq_iff_iff, Bool.not_eq_true', decide_eq_true_iff, ← h.contains_iff, Bool.not_eq_true]

theorem WellFormed.mem_keyUnion (h : s.WellFormed) {key : String} :
    key ∈ (s.keyUnion t).keys ↔ key ∈ s.keys ∨ key ∈ t.keys := by
  rw [keys_keyUnion, List.mem_append, h.mem_missingKeys]
  tauto

theorem name_combine_of_keyed (f : Value → Value → Value) (hs : s.kind.isScalar = false)
    (ht : t.kind.isScalar = false) : (combine f s t).name = s.name := by
  rw [combine_of_keyed f hs ht, name_assignFrom, name_keyUnion]

theorem kind_combine_of_keyed (f : Value → Value → Value) (hs : s.kind.isScalar = false)
    (ht : t.kind.isScalar = false) : (combine f s t).kind = s.kind := by
  rw [combine_of_keyed f hs ht, kind_assignFrom, kind_keyUnion]

theorem keys_combine_of_keyed (f : Value → Value → Value) (hs : s.kind.isScalar = false)
    (ht : t.kind.isScalar = false) : (combine f s t).keys = (s.keyUnion t).keys := by
  rw [combine_of_keyed f hs ht, keys_assignFrom]

/-- The loop that fills the union puts each combined value at the position of its key. -/
theorem values_combine_of_keyed (f : Value → Value → Value) (hs : s.WellFormed) (ht : t.WellFormed)
    (hskind : s.kind.isScalar = false) (htkind : t.kind.isScalar = false) :
    (combine f s t).values =
      (s.keyUnion t).keys.map fun key => (f (s.get key) (t.get key)).normalized := by
  have hlength : (unionValues f s t).length = (s.keyUnion t).values.length := by
    rw [unionValues, List.length_map, (hs.keyUnion ht).length_values]
  rw [combine_of_keyed f hskind htkind, values_assignFrom _ _ _ (by omega), hlength]
  simp [unionValues, Function.comp_def]

/-- Keyed combination, read at any key: one that a set does not hold reads as undefined. -/
theorem get_combine_of_keyed (f : Value → Value → Value) (hs : s.WellFormed) (ht : t.WellFormed)
    (hskind : s.kind.isScalar = false) (htkind : t.kind.isScalar = false)
    (hf : f .undefined .undefined = .undefined) (key : String) :
    (combine f s t).get key = (f (s.get key) (t.get key)).normalized := by
  have hwell := hs.combine ht f
  have hkeys := keys_combine_of_keyed f hskind htkind
  by_cases hkey : key ∈ (combine f s t).keys
  · have hvalues : (combine f s t).values =
        (combine f s t).keys.map fun key => (f (s.get key) (t.get key)).normalized := by
      rw [hkeys]
      exact values_combine_of_keyed f hs ht hskind htkind
    exact hwell.get_of_values hvalues hkey
  · have habsent := hkey
    rw [hkeys, hs.mem_keyUnion, not_or] at habsent
    rw [hwell.get_of_notMem hkey, hs.get_of_notMem habsent.1, ht.get_of_notMem habsent.2, hf]
    rfl

end KeyedSet

theorem Operator.wellFormed_eval (operator : Operator) (epsilon : Float) {lhs rhs : KeyedSet}
    (hlhs : lhs.WellFormed) (hrhs : rhs.WellFormed) : (operator.eval epsilon lhs rhs).WellFormed :=
  hlhs.combine hrhs _

theorem Operator.get_eval_of_keyed (operator : Operator) (epsilon : Float) {lhs rhs : KeyedSet}
    (hlhs : lhs.WellFormed) (hrhs : rhs.WellFormed) (hlkind : lhs.kind.isScalar = false)
    (hrkind : rhs.kind.isScalar = false) (key : String) :
    (operator.eval epsilon lhs rhs).get key =
      operator.rule epsilon (lhs.get key) (rhs.get key) := by
  rw [← operator.normalized_kernel epsilon]
  exact KeyedSet.get_combine_of_keyed _ hlhs hrhs hlkind hrkind
    (operator.kernel_undefined epsilon) key

open KeyedSet in
/-- The pairing law: an operator on two keyed sets is its rule at every key. -/
theorem Operator.eval_of_keyed (operator : Operator) (epsilon : Float) {lhs rhs : KeyedSet}
    (hlhs : Reachable lhs) (hrhs : Reachable rhs) (hlkind : lhs.kind.isScalar = false)
    (hrkind : rhs.kind.isScalar = false) :
    (operator.eval epsilon lhs rhs).name = lhs.name ∧
    (operator.eval epsilon lhs rhs).kind = lhs.kind ∧
    (operator.eval epsilon lhs rhs).keys =
      lhs.keys ++ rhs.keys.filter (fun key => key ∉ lhs.keys) ∧
    (operator.eval epsilon lhs rhs).keys.Nodup ∧
    ∀ key, (operator.eval epsilon lhs rhs).get key =
      operator.rule epsilon (lhs.get key) (rhs.get key) := by
  have hl := hlhs.wellFormed
  have hr := hrhs.wellFormed
  refine ⟨name_combine_of_keyed _ hlkind hrkind, kind_combine_of_keyed _ hlkind hrkind, ?_,
    (hl.combine hr _).keys_nodup, operator.get_eval_of_keyed epsilon hl hr hlkind hrkind⟩
  rw [eval, keys_combine_of_keyed _ hlkind hrkind, keys_keyUnion, hl.missingKeys_eq]

open KeyedSet in
theorem Operator.eval_of_keyed_divide :
    let rates := ((bare "WA" .well).push "P1" (.defined 3.0)).push "P2" (.defined 2.0)
    let counts := ((bare "WB" .well).push "P3" (.defined Binary64.infinity)).push "P2" (.defined (-0.0))
    let shares := Operator.divide.eval 0.0 rates counts
    Reachable rates ∧ Reachable counts ∧ shares.name = "WA" ∧ shares.kind = .well ∧
      shares.keys = ["P1", "P2", "P3"] ∧ shares.keys.Nodup ∧
      (∀ key, shares.get key = Operator.divide.rule 0.0 (rates.get key) (counts.get key)) ∧
      shares.get "P2" = .undefined := by
  intro rates counts shares
  have hrates : KeyedSet.ofEntries "WA" .well [("P1", .defined 3.0), ("P2", .defined 2.0)] =
      .ok rates := rfl
  have hcounts : KeyedSet.ofEntries "WB" .well
      [("P3", .defined Binary64.infinity), ("P2", .defined (-0.0))] = .ok counts := rfl
  obtain ⟨hname, hkind, hkeys, hnodup, hget⟩ :=
    Operator.eval_of_keyed .divide 0.0 (.ofEntries hrates) (.ofEntries hcounts) rfl rfl
  refine ⟨.ofEntries hrates, .ofEntries hcounts, hname, hkind, hkeys, hnodup, hget, ?_⟩
  rw [hget]
  rfl

end Quantities
