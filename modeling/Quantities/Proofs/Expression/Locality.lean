import Mathlib.Data.Set.Basic
import Quantities.Proofs.Operator.Broadcast
import Quantities.Proofs.Transform.Pointwise

/-!
# Expressions are evaluated key by key

Expressions compose the pointwise functions of one set and the functions of two sets.  Over variables
with the same keys, the value of an expression at a key is what its functions make of the values of the
variables at that key, whichever operands are broadcast and in whatever order keys are stored.
-/

namespace Quantities

namespace KeyedSet

variable {s t : KeyedSet} {keys : Set String} {key : String}

/-! ## Values at a key -/

/-- The value of a set at a key; a scalar-typed set has the same one at every key. -/
def valueAt (s : KeyedSet) (key : String) : Value :=
  if s.kind.isScalar then s.scalarValue else s.get key

/-- The value of a set at a key as a scalar; a scalar-typed set stays as it is. -/
def narrowed (s : KeyedSet) (key : String) : KeyedSet :=
  if s.kind.isScalar then s else scalar s.name (s.get key)

theorem valueAt_of_scalar (h : s.kind.isScalar = true) (key : String) :
    s.valueAt key = s.scalarValue := by
  rw [valueAt, if_pos h]

theorem valueAt_of_keyed (h : s.kind.isScalar = false) (key : String) :
    s.valueAt key = s.get key := by
  rw [valueAt, if_neg (by simp [h])]

theorem valueAt_renamed (s : KeyedSet) (name key : String) :
    (s.renamed name).valueAt key = s.valueAt key :=
  rfl

theorem isScalar_narrowed (s : KeyedSet) (key : String) :
    (s.narrowed key).kind.isScalar = true := by
  unfold narrowed
  split
  · next h => exact h
  · rfl

theorem scalarValue_narrowed (h : s.WellFormed) (key : String) :
    (s.narrowed key).scalarValue = s.valueAt key := by
  unfold narrowed valueAt
  split
  · rfl
  · exact Value.normalized_of_isNormal (h.isNormal_get key)

/-! ## Sets over the same keys -/

/-- A keyed set over the given keys, in any order, or a scalar-typed set with one entry. -/
structure Aligned (keys : Set String) (s : KeyedSet) : Prop where
  wellFormed : s.WellFormed
  mem_keys_iff : s.kind.isScalar = false → ∀ key, key ∈ s.keys ↔ key ∈ keys
  size_eq_one : s.kind.isScalar = true → s.size = 1

theorem Aligned.narrowed (h : s.Aligned keys) (key : String) : (s.narrowed key).Aligned keys := by
  unfold KeyedSet.narrowed
  split
  · exact h
  · refine ⟨wellFormed_scalar _ _, ?_, fun _ => rfl⟩
    intro hkind
    cases hkind

theorem Aligned.mapValues (h : s.Aligned keys) (f : Value → Value) :
    (s.mapValues f).Aligned keys :=
  ⟨h.wellFormed.mapValues f, h.mem_keys_iff, h.size_eq_one⟩

theorem Aligned.renamed (h : s.Aligned keys) (name : String) : (s.renamed name).Aligned keys :=
  ⟨h.wellFormed.renamed name, h.mem_keys_iff, h.size_eq_one⟩

theorem Aligned.valueAt_mapValues (h : s.Aligned keys) (hkey : key ∈ keys) (f : Value → Value) :
    (s.mapValues f).valueAt key = (f (s.valueAt key)).normalized := by
  have hmapped : (s.mapValues f).kind.isScalar = s.kind.isScalar := rfl
  cases hkind : s.kind.isScalar with
  | true =>
      rw [valueAt_of_scalar hkind, valueAt_of_scalar (hmapped.trans hkind), scalarValue_eq_headD,
        values_mapValues, h.wellFormed.values_of_size_eq_one (h.size_eq_one hkind)]
      rfl
  | false =>
      rw [valueAt_of_keyed hkind, valueAt_of_keyed (hmapped.trans hkind)]
      exact h.wellFormed.get_mapValues f ((h.mem_keys_iff hkind key).mpr hkey)

/-- A function of two sets keeps the keys, whether it pairs them or broadcasts one side. -/
theorem Aligned.operator (hs : s.Aligned keys) (ht : t.Aligned keys) (operator : Operator)
    (epsilon : Float) : (operator.eval epsilon s t).Aligned keys := by
  rw [Operator.eval]
  cases htkind : t.kind.isScalar with
  | true =>
      rw [combine_of_scalar_right _ htkind]
      exact hs.mapValues _
  | false =>
      cases hskind : s.kind.isScalar with
      | true =>
          rw [combine_of_scalar_left _ hskind htkind]
          exact (ht.mapValues _).renamed _
      | false =>
          refine ⟨hs.wellFormed.combine ht.wellFormed _, ?_, ?_⟩
          · intro _ key
            rw [keys_combine_of_keyed _ hskind htkind, hs.wellFormed.mem_keyUnion,
              hs.mem_keys_iff hskind, ht.mem_keys_iff htkind, or_self]
          · intro hkind
            rw [kind_combine_of_keyed _ hskind htkind, hskind] at hkind
            cases hkind

/-- A function of two sets is its rule at every key, whether it pairs them or broadcasts one side. -/
theorem Aligned.valueAt_operator (hs : s.Aligned keys) (ht : t.Aligned keys) (hkey : key ∈ keys)
    (operator : Operator) (epsilon : Float) :
    (operator.eval epsilon s t).valueAt key =
      operator.rule epsilon (s.valueAt key) (t.valueAt key) := by
  cases htkind : t.kind.isScalar with
  | true =>
      rw [Operator.eval, combine_of_scalar_right _ htkind, hs.valueAt_mapValues hkey,
        valueAt_of_scalar htkind, Operator.normalized_kernel]
  | false =>
      cases hskind : s.kind.isScalar with
      | true =>
          rw [Operator.eval, combine_of_scalar_left _ hskind htkind, valueAt_renamed,
            ht.valueAt_mapValues hkey, valueAt_of_scalar hskind, Operator.normalized_kernel]
      | false =>
          have hkind := kind_combine_of_keyed (operator.kernel epsilon) hskind htkind
          rw [valueAt_of_keyed (hkind ▸ hskind), valueAt_of_keyed hskind, valueAt_of_keyed htkind]
          exact operator.get_eval_of_keyed epsilon hs.wellFormed ht.wellFormed hskind htkind key

end KeyedSet

/-! ## Expressions -/

/-- Trees of functions over variables, which name the sets of an environment. -/
inductive Expression (ι : Type) where
  | operand (x : ι)
  | apply (transform : Transform) (isPointwise : transform.isPointwise = true)
      (argument : Expression ι)
  | limit (settings : Settings) (argument : Expression ι)
  | combine (operator : Operator) (epsilon : Float) (lhs rhs : Expression ι)

namespace Expression

open KeyedSet

variable {ι : Type} {environment : ι → KeyedSet} {keys : Set String} {key : String}

def eval (environment : ι → KeyedSet) : Expression ι → KeyedSet
  | operand x => environment x
  | apply transform _ argument => transform.eval (argument.eval environment)
  | limit settings argument => settings.applyRange (argument.eval environment)
  | combine operator epsilon lhs rhs =>
      operator.eval epsilon (lhs.eval environment) (rhs.eval environment)

def ofValues (values : ι → Value) : Expression ι → Value
  | operand x => values x
  | apply transform _ argument => transform.onValue (argument.ofValues values)
  | limit settings argument => settings.inRange (argument.ofValues values)
  | combine operator epsilon lhs rhs =>
      operator.rule epsilon (lhs.ofValues values) (rhs.ofValues values)

/-- Every keyed sub-result has the keys of the variables, every scalar-typed one a single entry. -/
theorem aligned_eval (e : Expression ι) (h : ∀ x, (environment x).Aligned keys) :
    (e.eval environment).Aligned keys := by
  induction e with
  | operand x => exact h x
  | apply transform hpointwise argument ih =>
      rw [eval, Transform.eval_of_isPointwise hpointwise]
      exact ih.mapValues _
  | limit settings argument ih =>
      rw [eval, Settings.applyRange_eq_mapValues]
      exact ih.mapValues _
  | combine operator epsilon lhs rhs ihl ihr => exact ihl.operator ihr operator epsilon

/-- Evaluation commutes with reading at a key. -/
theorem valueAt_eval (e : Expression ι) (h : ∀ x, (environment x).Aligned keys) (hkey : key ∈ keys) :
    (e.eval environment).valueAt key = e.ofValues fun x => (environment x).valueAt key := by
  induction e with
  | operand x => rfl
  | apply transform hpointwise argument ih =>
      rw [eval, Transform.eval_of_isPointwise hpointwise,
        (argument.aligned_eval h).valueAt_mapValues hkey, ih,
        Value.normalized_of_isNormal (Transform.isNormal_onValue hpointwise _), ofValues]
  | limit settings argument ih =>
      rw [eval, Settings.applyRange_eq_mapValues,
        (argument.aligned_eval h).valueAt_mapValues hkey, ih,
        Value.normalized_of_isNormal (settings.isNormal_inRange _), ofValues]
  | combine operator epsilon lhs rhs ihl ihr =>
      rw [eval, (lhs.aligned_eval h).valueAt_operator (rhs.aligned_eval h) hkey, ihl, ihr, ofValues]

theorem isScalar_eval (e : Expression ι) (h : ∀ x, (environment x).kind.isScalar = true) :
    (e.eval environment).kind.isScalar = true := by
  induction e with
  | operand x => exact h x
  | apply transform hpointwise argument ih =>
      rw [eval, Transform.eval_of_isPointwise hpointwise]
      exact ih
  | limit settings argument ih => exact ih
  | combine operator epsilon lhs rhs ihl ihr =>
      rw [eval, Operator.eval, combine_of_scalar_right _ ihr]
      exact ihl

/-- An environment whose keyed sets all have the given keys, and whose other sets have one entry. -/
structure Uniform (keys : Set String) (environment : ι → KeyedSet) : Prop where
  reachable : ∀ x, Reachable (environment x)
  mem_keys_iff : ∀ x, (environment x).kind.isScalar = false →
    ∀ key, key ∈ (environment x).keys ↔ key ∈ keys
  size_eq_one : ∀ x, (environment x).kind.isScalar = true → (environment x).size = 1

theorem Uniform.aligned (h : Uniform keys environment) (x : ι) : (environment x).Aligned keys :=
  ⟨(h.reachable x).wellFormed, h.mem_keys_iff x, h.size_eq_one x⟩

/--
Locality: the value at a key is that of the same tree over the values at this key alone, and stays the
same when the variables change at other keys.
-/
theorem eval_local (e : Expression ι) (h : Uniform keys environment) (hkey : key ∈ keys) :
    ((e.eval environment).kind.isScalar = false → key ∈ (e.eval environment).keys) ∧
    (e.eval environment).valueAt key =
      (e.eval fun x => (environment x).narrowed key).scalarValue ∧
    ∀ other : ι → KeyedSet, Uniform keys other →
      (∀ x, (other x).valueAt key = (environment x).valueAt key) →
      (e.eval other).valueAt key = (e.eval environment).valueAt key := by
  have hvalue := e.valueAt_eval h.aligned hkey
  refine ⟨fun hkind => ((e.aligned_eval h.aligned).mem_keys_iff hkind key).mpr hkey, ?_, ?_⟩
  · have hscalar := e.isScalar_eval fun x => isScalar_narrowed (environment x) key
    have hnarrowed := e.valueAt_eval (fun x => (h.aligned x).narrowed key) hkey
    rw [valueAt_of_scalar hscalar] at hnarrowed
    rw [hvalue, hnarrowed]
    congr 1
    funext x
    rw [valueAt_of_scalar (isScalar_narrowed _ _),
      scalarValue_narrowed (h.aligned x).wellFormed]
  · intro other hother hagree
    rw [hvalue, e.valueAt_eval hother.aligned hkey, funext hagree]

theorem eval_local_ratio :
    let rates := ((bare "WA" .well).push "P1" (.defined 3.0)).push "P2" (.defined 2.0)
    let counts := ((bare "WB" .well).push "P2" .undefined).push "P1" (.defined 5.0)
    let environment : Fin 3 → KeyedSet
      | 0 => rates
      | 1 => counts
      | 2 => KeyedSet.field "FB" (.defined 1.0)
    let e : Expression (Fin 3) :=
      .combine .divide 0.0 (.apply .naturalLog rfl (.operand 0))
        (.limit {} (.combine .subtract 0.0 (.operand 1) (.operand 2)))
    ((e.eval environment).valueAt "P1").isDefined = true ∧
      (e.eval environment).valueAt "P1" =
        (e.eval fun x => (environment x).narrowed "P1").scalarValue := by
  intro rates counts environment e
  have hrates : KeyedSet.ofEntries "WA" .well [("P1", .defined 3.0), ("P2", .defined 2.0)] =
      .ok rates := rfl
  have hcounts : KeyedSet.ofEntries "WB" .well [("P2", .undefined), ("P1", .defined 5.0)] =
      .ok counts := rfl
  have huniform : Uniform {key | key = "P1" ∨ key = "P2"} environment := by
    refine ⟨?_, ?_, ?_⟩
    · intro x
      match x with
      | 0 => exact .ofEntries hrates
      | 1 => exact .ofEntries hcounts
      | 2 => exact .field _ _
    · intro x hkind key
      match x with
      | 0 => simp [environment, rates]
      | 1 => simp [environment, counts, or_comm]
      | 2 => cases hkind
    · intro x hkind
      match x with
      | 0 | 1 => cases hkind
      | 2 => rfl
  exact ⟨by decide +kernel, (e.eval_local huniform (.inl rfl)).2.1⟩

end Expression

end Quantities
