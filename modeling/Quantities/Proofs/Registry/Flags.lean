import Mathlib
import Quantities.Proofs.KeyedSet.Equality
import Quantities.Proofs.Operator.Merging
import Quantities.Proofs.Registry.WriteOnce

/-!
# Flags tell what functions do

A flag is a promise about evaluation: what is pure leaves the generator alone, what is random needs one, and
what is not tolerant does not look at the epsilon.  In the catalogue the flags of the operators are also
earned: some operands tell two epsilons apart for every tolerant operator, and exactly the merges put up
with a missing side.
-/

namespace Quantities

open Binary64

/-! ## Promises of all functions -/

structure UnaryFunction.FlagsSound (f : UnaryFunction) : Prop where
  one : Xor (.pure ∈ f.flags) (.random ∈ f.flags)
  pure : .pure ∈ f.flags → ∀ g s, ∃ result, f.evalPure? s = some result ∧ f.eval g s = (result, g)
  random : .random ∈ f.flags → ∀ s, f.evalPure? s = none

/-- A function of two sets that is not tolerant gives the same set for any two epsilons. -/
def BinaryFunction.FlagsSound (f : BinaryFunction) : Prop :=
  .tolerant ∉ f.flags → ∀ epsilon other lhs rhs, f.eval epsilon lhs rhs = f.eval other lhs rhs

def SetFunction.FlagsSound : SetFunction → Prop
  | .scalar _ => True
  | .unary f => f.FlagsSound
  | .binary f => f.FlagsSound

theorem UnaryFunction.flagsSound (f : UnaryFunction) : f.FlagsSound := by
  obtain ⟨name, body⟩ := f
  cases body with
  | pure body =>
      exact ⟨.inl ⟨by simp [flags], by simp [flags]⟩, fun _ g s => ⟨body s, rfl, rfl⟩,
        fun hrandom => by simp [flags] at hrandom⟩
  | random body =>
      exact ⟨.inr ⟨by simp [flags], by simp [flags]⟩, fun hpure => by simp [flags] at hpure,
        fun _ _ => rfl⟩

theorem BinaryFunction.flagsSound (f : BinaryFunction) : f.FlagsSound := by
  obtain ⟨name, body⟩ := f
  intro hstrict epsilon other lhs rhs
  cases body with
  | tolerant body => exact absurd (by simp [flags]) hstrict
  | strict body | undefTolerant body => rfl

theorem SetFunction.flagsSound (f : SetFunction) : f.FlagsSound := by
  cases f with
  | scalar f => trivial
  | unary f => exact f.flagsSound
  | binary f => exact f.flagsSound

/-! ## Operators -/

namespace Operator

open KeyedSet

variable {operator : Operator} {epsilon : Float} {lhs rhs : KeyedSet}

def tolerantOnes : List Operator :=
  [.equal, .unequal, .atMost, .atLeast]

theorem tolerant_mem_flags_iff :
    Flag.tolerant ∈ operator.toFunction.flags ↔ operator ∈ tolerantOnes := by
  cases operator <;> decide

theorem undefTolerant_mem_flags_iff :
    Flag.undefTolerant ∈ operator.toFunction.flags ↔ operator ∈ merges := by
  cases operator <;> decide

/-- The function object of an operator is the operator, for the epsilon that it is given or for another
one that it does not look at. -/
theorem exists_eval_eq (operator : Operator) (epsilon : Float) :
    ∃ seen, operator.toFunction.eval epsilon = operator.eval seen := by
  cases operator <;> exact ⟨_, rfl⟩

theorem eval_toFunction_of_tolerant (h : operator ∈ tolerantOnes) (epsilon : Float) :
    operator.toFunction.eval epsilon = operator.eval epsilon := by
  fin_cases h <;> rfl

theorem neutral?_eq_none (h : operator ∉ merges) : operator.neutral? = none := by
  cases operator <;> first | rfl | exact absurd (by decide) h

/-- Without a neutral number both operands are needed. -/
theorem rule_of_missing (h : operator ∉ merges) {l r : Value}
    (hmissing : ¬(l.isDefined = true ∧ r.isDefined = true)) :
    operator.rule epsilon l r = .undefined := by
  have hneutral := neutral?_eq_none h
  cases l <;> cases r <;> simp_all [rule, Value.isDefined]

theorem isDefined_rule_of_merge (h : operator ∈ merges) {l r : Value} (hl : l.IsNormal)
    (hr : r.IsNormal) (hone : l.isDefined ≠ r.isDefined) :
    (operator.rule epsilon l r).isDefined = true := by
  cases l with
  | undefined =>
      cases r with
      | undefined => exact absurd rfl hone
      | defined y => rw [rule_alone_left epsilon h hr]; rfl
  | defined x =>
      cases r with
      | undefined => rw [rule_alone_right epsilon h hl]; rfl
      | defined y => exact absurd rfl hone

/-! ### Operands that tell functions apart -/

/-- Pairs of numbers one apart, in both directions. -/
def nearLeft : KeyedSet :=
  ((bare "WA" .well).push "P1" (.defined 1.0)).push "P2" (.defined 2.0)

def nearRight : KeyedSet :=
  ((bare "WB" .well).push "P1" (.defined 2.0)).push "P2" (.defined 1.0)

def missing : KeyedSet :=
  (bare "WC" .well).push "P1" .undefined

theorem reachable_near : Reachable nearLeft ∧ Reachable nearRight := by
  have hleft : ofEntries "WA" .well [("P1", .defined 1.0), ("P2", .defined 2.0)] = .ok nearLeft := rfl
  have hright : ofEntries "WB" .well [("P1", .defined 2.0), ("P2", .defined 1.0)] = .ok nearRight :=
    rfl
  exact ⟨.ofEntries hleft, .ofEntries hright⟩

theorem reachable_missing : Reachable missing := by
  have hmissing : ofEntries "WC" .well [("P1", .undefined)] = .ok missing := rfl
  exact .ofEntries hmissing

/-- A zero and a wide epsilon make a difference to every tolerant operator. -/
theorem near_told_apart (h : operator ∈ tolerantOnes) :
    (operator.eval 0.0 nearLeft nearRight == operator.eval 5.0 nearLeft nearRight) = false := by
  have hall : ∀ operator ∈ tolerantOnes,
      (operator.eval 0.0 nearLeft nearRight == operator.eval 5.0 nearLeft nearRight) = false := by
    decide +kernel
  exact hall operator h

/-! ### Exact flags -/

/-- An operator is tolerant exactly when some operands have different results for two epsilons. -/
theorem tolerant_iff (operator : Operator) : .tolerant ∈ operator.toFunction.flags ↔
    ∃ epsilon other lhs rhs, Reachable lhs ∧ Reachable rhs ∧
      (operator.toFunction.eval epsilon lhs rhs == operator.toFunction.eval other lhs rhs) = false := by
  constructor
  · intro hflag
    have htolerant := tolerant_mem_flags_iff.mp hflag
    refine ⟨0.0, 5.0, nearLeft, nearRight, reachable_near.1, reachable_near.2, ?_⟩
    rw [eval_toFunction_of_tolerant htolerant, eval_toFunction_of_tolerant htolerant]
    exact near_told_apart htolerant
  · rintro ⟨epsilon, other, lhs, rhs, hlhs, hrhs, hdiffer⟩
    by_contra hstrict
    obtain ⟨seen, hseen⟩ := operator.exists_eval_eq other
    rw [operator.toFunction.flagsSound hstrict epsilon other lhs rhs, hseen] at hdiffer
    have hresult := operator.wellFormed_eval seen hlhs.wellFormed hrhs.wellFormed
    rw [(hresult.beq_iff_matches hresult).mpr (.refl _)] at hdiffer
    cases hdiffer

/-- Without the flag for missing operands a key needs both operands. -/
theorem get_eval_of_missing (h : .undefTolerant ∉ operator.toFunction.flags) (hlhs : lhs.WellFormed)
    (hrhs : rhs.WellFormed) (hlkind : lhs.kind.isScalar = false) (hrkind : rhs.kind.isScalar = false)
    {key : String}
    (hmissing : ¬((lhs.get key).isDefined = true ∧ (rhs.get key).isDefined = true)) :
    (operator.toFunction.eval epsilon lhs rhs).get key = .undefined := by
  obtain ⟨seen, hseen⟩ := operator.exists_eval_eq epsilon
  rw [hseen, operator.get_eval_of_keyed seen hlhs hrhs hlkind hrkind]
  exact rule_of_missing (fun hmerge => h (undefTolerant_mem_flags_iff.mpr hmerge)) hmissing

/-- An operator puts up with missing operands exactly when one operand is enough at every key. -/
theorem undefTolerant_iff (operator : Operator) : .undefTolerant ∈ operator.toFunction.flags ↔
    ∀ epsilon lhs rhs, Reachable lhs → Reachable rhs → lhs.kind.isScalar = false →
      rhs.kind.isScalar = false → ∀ key, (lhs.get key).isDefined ≠ (rhs.get key).isDefined →
      ((operator.toFunction.eval epsilon lhs rhs).get key).isDefined = true := by
  constructor
  · intro hflag epsilon lhs rhs hlhs hrhs hlkind hrkind key hone
    have hl := hlhs.wellFormed
    have hr := hrhs.wellFormed
    obtain ⟨seen, hseen⟩ := operator.exists_eval_eq epsilon
    rw [hseen, operator.get_eval_of_keyed seen hl hr hlkind hrkind]
    exact isDefined_rule_of_merge (undefTolerant_mem_flags_iff.mp hflag) (hl.isNormal_get key)
      (hr.isNormal_get key) hone
  · -- A number beside a missing value shows that the other operators need both.
    intro hone
    by_contra hflag
    have hdefined := hone 0.0 nearLeft missing reachable_near.1 reachable_missing rfl rfl "P1"
      (by decide +kernel)
    rw [get_eval_of_missing hflag reachable_near.1.wellFormed reachable_missing.wellFormed rfl rfl
      (by decide +kernel)] at hdefined
    cases hdefined

end Operator

/-! ## The catalogue -/

theorem exists_operator_of_mem_catalogue {f : BinaryFunction} (h : .binary f ∈ catalogue) :
    ∃ operator : Operator, f = operator.toFunction := by
  simp only [catalogue, List.mem_append, List.mem_map] at h
  rcases h with ((⟨_, _, h⟩ | ⟨_, _, h⟩) | ⟨_, _, h⟩) | ⟨operator, -, h⟩
  · cases h
  · cases h
  · cases h
  · cases h
    exact ⟨operator, rfl⟩

theorem not_tolerant_of_not_binary (f : SetFunction) (h : f.family ≠ .binary) :
    .tolerant ∉ f.flags ∧ .undefTolerant ∉ f.flags := by
  cases f with
  | scalar f => simp [SetFunction.flags, ScalarFunction.flags]
  | unary f =>
      obtain ⟨name, body⟩ := f
      cases body <;> simp [SetFunction.flags, UnaryFunction.flags]
  | binary f => exact absurd rfl h

namespace Registry

open KeyedSet

/--
Flags say what functions do.

- Every function that a registry hands out keeps the promises of its flags, whoever registered it: it is
  either pure, and then evaluation with a generator is evaluation without one and leaves the generator as
  it is, or random, and then it has no answer without a generator; and functions of two sets that are not
  tolerant do not look at the epsilon.
- In the catalogue, a function of two sets is tolerant if and only if some operands have different results
  for two epsilons.  It puts up with missing operands if and only if every key that is defined on one side
  only is defined in the result, and otherwise every key that is not defined on both sides is undefined.
  Functions of one set carry neither flag.
-/
theorem flags_exact :
    (∀ calls family name f, (empty.run calls).get? family name = some f → f.FlagsSound) ∧
    (∀ f, SetFunction.binary f ∈ catalogue →
      (.tolerant ∈ f.flags ↔ ∃ epsilon other lhs rhs, Reachable lhs ∧ Reachable rhs ∧
        (f.eval epsilon lhs rhs == f.eval other lhs rhs) = false) ∧
      (.undefTolerant ∈ f.flags ↔
        ∀ epsilon lhs rhs, Reachable lhs → Reachable rhs → lhs.kind.isScalar = false →
          rhs.kind.isScalar = false → ∀ key, (lhs.get key).isDefined ≠ (rhs.get key).isDefined →
          ((f.eval epsilon lhs rhs).get key).isDefined = true) ∧
      (.undefTolerant ∉ f.flags →
        ∀ epsilon lhs rhs, Reachable lhs → Reachable rhs → lhs.kind.isScalar = false →
          rhs.kind.isScalar = false → ∀ key,
          ¬((lhs.get key).isDefined = true ∧ (rhs.get key).isDefined = true) →
          (f.eval epsilon lhs rhs).get key = .undefined)) ∧
    ∀ f ∈ catalogue, f.family ≠ .binary → .tolerant ∉ f.flags ∧ .undefTolerant ∉ f.flags := by
  refine ⟨fun calls family name f _ => f.flagsSound, fun f hf => ?_, fun f _ h =>
    not_tolerant_of_not_binary f h⟩
  obtain ⟨operator, rfl⟩ := exists_operator_of_mem_catalogue hf
  exact ⟨operator.tolerant_iff, operator.undefTolerant_iff,
    fun hflag epsilon lhs rhs hlhs hrhs hlkind hrkind key hmissing =>
      Operator.get_eval_of_missing hflag hlhs.wellFormed hrhs.wellFormed hlkind hrkind hmissing⟩

def doubling : UnaryFunction where
  name := "TWICE"
  body := .pure fun s => Operator.add.eval 0.0 s s

theorem flags_exact_of_run :
    let registry := empty.run [.register (.unary doubling), .register (.unary Draw.normal.toFunction)]
    registry.get? .unary "TWICE" = some (.unary doubling) ∧ doubling.FlagsSound ∧
      registry.get? .unary "RANDN" = some (.unary Draw.normal.toFunction) ∧
      Draw.normal.toFunction.evalPure? Operator.missing = none ∧
      (∃ epsilon other lhs rhs, Reachable lhs ∧ Reachable rhs ∧
        (Operator.atLeast.toFunction.eval epsilon lhs rhs ==
          Operator.atLeast.toFunction.eval other lhs rhs) = false) ∧
      ((Operator.mergeAdd.toFunction.eval 0.0 Operator.nearLeft Operator.missing).get "P1").isDefined =
        true ∧
      (Operator.add.toFunction.eval 0.0 Operator.nearLeft Operator.missing).get "P1" = .undefined := by
  intro registry
  obtain ⟨hsound, hcatalogue, -⟩ := flags_exact
  have hmem (operator : Operator) (h : operator ∈ Operator.all) :
      SetFunction.binary operator.toFunction ∈ catalogue :=
    List.mem_append_right _ (List.mem_map.mpr ⟨operator, h, rfl⟩)
  have hdoubling : registry.get? .unary "TWICE" = some (.unary doubling) := rfl
  have hnormal : registry.get? .unary "RANDN" = some (.unary Draw.normal.toFunction) := rfl
  have hrandom : Draw.normal.toFunction.FlagsSound := hsound _ .unary "RANDN" _ hnormal
  have hnear := Operator.reachable_near.1
  have hmissing := Operator.reachable_missing
  refine ⟨hdoubling, hsound _ .unary "TWICE" _ hdoubling, hnormal, hrandom.random (by decide) _,
    (hcatalogue _ (hmem .atLeast (by decide))).1.mp (by decide), ?_, ?_⟩
  · exact (hcatalogue _ (hmem .mergeAdd (by decide))).2.1.mp (by decide) 0.0 _ _ hnear hmissing rfl rfl
      "P1" (by decide +kernel)
  · exact (hcatalogue _ (hmem .add (by decide))).2.2 (by decide) 0.0 _ _ hnear hmissing rfl rfl "P1"
      (by decide +kernel)

end Registry

end Quantities
