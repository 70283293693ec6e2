import Quantities.Proofs.Binary64.Addition
import Quantities.Proofs.Operator.Operands

/-!
# Comparisons within a tolerance

The six comparisons are decided by differently rounded expressions.  They agree with each other all the
same: rounding keeps the order of numbers, and a difference is rounded to zero only when there is none.
-/

namespace Quantities

namespace Operator

open Binary64 KeyedSet

variable {operator : Operator} {epsilon wider x y : Float}

/-! ## Tolerances -/

theorem tolerance_of_neg (h : epsilon < 0.0) : tolerance epsilon = 0.0 := by
  simp [tolerance, larger, h]

theorem tolerance_of_isNaN (h : epsilon.isNaN = true) : tolerance epsilon = 0.0 := by
  simp only [tolerance, larger, h, Bool.or_true, if_true]

theorem isNaN_tolerance (epsilon : Float) : (tolerance epsilon).isNaN = false := by
  cases hnan : epsilon.isNaN with
  | true =>
      rw [tolerance_of_isNaN hnan]
      exact isNaN_zero
  | false =>
      rcases larger_eq_or epsilon 0.0 with hself | hzero
      · rw [tolerance, hself, hnan]
      · rw [tolerance, hzero, isNaN_zero]

theorem toRat_tolerance (h : epsilon.isNaN = false) :
    toRat (tolerance epsilon) = max (toRat epsilon) 0 := by
  rw [tolerance, toRat_larger h isNaN_zero, toRat_zero]

theorem toRat_tolerance_nonneg (epsilon : Float) : 0 ≤ toRat (tolerance epsilon) := by
  cases hnan : epsilon.isNaN with
  | true => rw [tolerance_of_isNaN hnan, toRat_zero]
  | false =>
      rw [toRat_tolerance hnan]
      exact le_max_right _ _

theorem toRat_tolerance_mono (h : epsilon ≤ wider) :
    toRat (tolerance epsilon) ≤ toRat (tolerance wider) := by
  obtain ⟨hnan, hwider⟩ := isNaN_of_le h
  rw [toRat_tolerance hnan, toRat_tolerance hwider]
  exact max_le_max ((le_iff hnan hwider).mp h) le_rfl

theorem toRat_tolerance_of_beq_zero (h : (epsilon == 0.0) = true) : toRat (tolerance epsilon) = 0 := by
  rcases (beq_zero_iff epsilon).mp h with rfl | rfl
  · rw [toRat_tolerance isNaN_zero, toRat_zero, max_self]
  · rw [toRat_tolerance ((isNaN_neg 0.0).trans isNaN_zero), toRat_neg, toRat_zero, neg_zero, max_self]

/-! ## Comparisons of numbers -/

def comparisons : List Operator :=
  [.equal, .unequal, .atMost, .atLeast, .less, .greater]

def holds (operator : Operator) (epsilon x y : Float) : Prop :=
  match operator with
  | .equal => (x - y).abs ≤ tolerance epsilon
  | .unequal => ¬(x - y).abs ≤ tolerance epsilon
  | .atMost => x ≤ y + tolerance epsilon
  | .atLeast => y - tolerance epsilon ≤ x
  | .less => x < y
  | .greater => y < x
  | _ => False

theorem indicator_eq_one_iff {flag : Bool} : Value.indicator flag = .defined 1.0 ↔ flag = true := by
  cases flag <;> decide

theorem indicator_eq_zero_iff {flag : Bool} : Value.indicator flag = .defined 0.0 ↔ flag = false := by
  cases flag <;> decide

theorem ofNumbers_eq_one_iff (h : operator ∈ comparisons) :
    operator.ofNumbers epsilon x y = .defined 1.0 ↔ operator.holds epsilon x y := by
  fin_cases h <;> simp only [ofNumbers, holds, indicator_eq_one_iff, decide_eq_true_eq]

theorem ofNumbers_eq_zero_iff (h : operator ∈ comparisons) :
    operator.ofNumbers epsilon x y = .defined 0.0 ↔ ¬operator.holds epsilon x y := by
  fin_cases h <;> simp only [ofNumbers, holds, indicator_eq_zero_iff, decide_eq_false_iff_not]

/-- Inequality gives what equality leaves of one. -/
theorem ofNumbers_unequal (epsilon x y : Float) : ∃ flag,
    Operator.equal.ofNumbers epsilon x y = .defined flag ∧
    Operator.unequal.ofNumbers epsilon x y = .defined (1.0 - flag) := by
  by_cases hwithin : (x - y).abs ≤ tolerance epsilon
  · refine ⟨1.0, ?_, ?_⟩
    · rw [ofNumbers_eq_one_iff (by decide)]
      exact hwithin
    · simp only [ofNumbers, hwithin]
      decide
  · refine ⟨0.0, ?_, ?_⟩
    · rw [ofNumbers_eq_zero_iff (by decide)]
      exact hwithin
    · simp only [ofNumbers, hwithin]
      decide

section Finite

variable (hx : x.isFinite = true) (hy : y.isFinite = true)
include hx hy

theorem equal_iff : Operator.equal.holds epsilon x y ↔
    min (rounded |toRat x - toRat y|) beyond ≤ toRat (tolerance epsilon) := by
  rw [holds, le_iff (isNaN_abs_sub hx hy) (isNaN_tolerance epsilon), toRat_abs_sub hx hy]

theorem atMost_iff : Operator.atMost.holds epsilon x y ↔
    toRat x ≤ toRat (y + tolerance epsilon) :=
  le_iff (isNaN_of_isFinite hx) (isNaN_add hy (isNaN_tolerance epsilon))

theorem atLeast_iff : Operator.atLeast.holds epsilon x y ↔
    toRat (y - tolerance epsilon) ≤ toRat x :=
  le_iff (isNaN_sub hy (isNaN_tolerance epsilon)) (isNaN_of_isFinite hx)

theorem less_iff : Operator.less.holds epsilon x y ↔ toRat x < toRat y :=
  lt_iff (isNaN_of_isFinite hx) (isNaN_of_isFinite hy)

theorem greater_iff : Operator.greater.holds epsilon x y ↔ toRat y < toRat x :=
  lt_iff (isNaN_of_isFinite hy) (isNaN_of_isFinite hx)

theorem atMost_of_le (h : toRat x ≤ toRat y) : Operator.atMost.holds epsilon x y := by
  rw [atMost_iff hx hy]
  have hzero := toRat_add_of_toRat_eq_zero hy isNaN_zero toRat_zero
  have hwiden := toRat_add_le_add hy isNaN_zero (isNaN_tolerance epsilon)
    (toRat_zero.trans_le (toRat_tolerance_nonneg epsilon))
  rw [hzero] at hwiden
  exact h.trans hwiden

theorem atLeast_of_le (h : toRat y ≤ toRat x) : Operator.atLeast.holds epsilon x y := by
  rw [atLeast_iff hx hy]
  have hzero := toRat_sub_of_toRat_eq_zero hy isNaN_zero toRat_zero
  have hwiden := toRat_sub_le_sub hy isNaN_zero (isNaN_tolerance epsilon)
    (toRat_zero.trans_le (toRat_tolerance_nonneg epsilon))
  rw [hzero] at hwiden
  exact hwiden.trans h

theorem equal_of_eq (h : toRat x = toRat y) : Operator.equal.holds epsilon x y := by
  rw [equal_iff hx hy, h, sub_self, abs_zero, rounded_zero]
  exact (min_le_left _ _).trans (toRat_tolerance_nonneg epsilon)

theorem equal_iff_of_beq_zero (h : (epsilon == 0.0) = true) :
    Operator.equal.holds epsilon x y ↔ toRat x = toRat y := by
  refine ⟨fun hequal => ?_, equal_of_eq hx hy⟩
  by_contra hne
  rw [equal_iff hx hy, toRat_tolerance_of_beq_zero h] at hequal
  exact absurd hequal (not_le.mpr (lt_min (rounded_sub_pos hx hy hne) beyond_pos))

theorem atMost_iff_of_beq_zero (h : (epsilon == 0.0) = true) :
    Operator.atMost.holds epsilon x y ↔ toRat x ≤ toRat y := by
  rw [atMost_iff hx hy,
    toRat_add_of_toRat_eq_zero hy (isNaN_tolerance epsilon) (toRat_tolerance_of_beq_zero h)]

theorem atLeast_iff_of_beq_zero (h : (epsilon == 0.0) = true) :
    Operator.atLeast.holds epsilon x y ↔ toRat y ≤ toRat x := by
  rw [atLeast_iff hx hy,
    toRat_sub_of_toRat_eq_zero hy (isNaN_tolerance epsilon) (toRat_tolerance_of_beq_zero h)]

/-- What holds within a tolerance holds within a wider one. -/
theorem holds_of_le (h : epsilon ≤ wider) (hoperator : operator ∈ [.equal, .atMost, .atLeast])
    (hholds : operator.holds epsilon x y) : operator.holds wider x y := by
  have hwiden := toRat_tolerance_mono h
  fin_cases hoperator
  · rw [equal_iff hx hy] at hholds ⊢
    exact hholds.trans hwiden
  · rw [atMost_iff hx hy] at hholds ⊢
    exact hholds.trans (toRat_add_le_add hy (isNaN_tolerance _) (isNaN_tolerance _) hwiden)
  · rw [atLeast_iff hx hy] at hholds ⊢
    exact (toRat_sub_le_sub hy (isNaN_tolerance _) (isNaN_tolerance _) hwiden).trans hholds

end Finite

/-! ## Comparisons of entries -/

def HoldsAt (operator : Operator) (epsilon : Float) (lhs rhs : KeyedSet) (key : String) : Prop :=
  (operator.eval epsilon lhs rhs).get key = .defined 1.0

def FailsAt (operator : Operator) (epsilon : Float) (lhs rhs : KeyedSet) (key : String) : Prop :=
  (operator.eval epsilon lhs rhs).get key = .defined 0.0

/-- What the comparisons of two sets say about each other under a key, where the operands are `x` and
`y`. -/
structure CoherentAt (lhs rhs : KeyedSet) (key : String) (x y : Float) : Prop where
  holds_or_fails : ∀ operator ∈ comparisons, ∀ epsilon,
    HoldsAt operator epsilon lhs rhs key ∨ FailsAt operator epsilon lhs rhs key
  unequal_eq_one_sub : ∀ epsilon, ∃ flag,
    (Operator.equal.eval epsilon lhs rhs).get key = .defined flag ∧
    (Operator.unequal.eval epsilon lhs rhs).get key = .defined (1.0 - flag)
  not_less_and_greater : ∀ epsilon,
    ¬(HoldsAt .less epsilon lhs rhs key ∧ HoldsAt .greater epsilon lhs rhs key)
  neither_iff : ∀ epsilon,
    FailsAt .less epsilon lhs rhs key ∧ FailsAt .greater epsilon lhs rhs key ↔ (x == y) = true
  atMost_of_less : ∀ epsilon,
    HoldsAt .less epsilon lhs rhs key → HoldsAt .atMost epsilon lhs rhs key
  atLeast_of_greater : ∀ epsilon,
    HoldsAt .greater epsilon lhs rhs key → HoldsAt .atLeast epsilon lhs rhs key
  atMost_or_atLeast : ∀ epsilon,
    HoldsAt .atMost epsilon lhs rhs key ∨ HoldsAt .atLeast epsilon lhs rhs key
  of_beq : (x == y) = true → ∀ epsilon, ∀ operator ∈ [.equal, .atMost, .atLeast],
    HoldsAt operator epsilon lhs rhs key
  equal_iff : ∀ epsilon, (epsilon == 0.0) = true →
    (HoldsAt .equal epsilon lhs rhs key ↔ (x == y) = true)
  atMost_iff : ∀ epsilon, (epsilon == 0.0) = true →
    (HoldsAt .atMost epsilon lhs rhs key ↔ x ≤ y)
  atLeast_iff : ∀ epsilon, (epsilon == 0.0) = true →
    (HoldsAt .atLeast epsilon lhs rhs key ↔ y ≤ x)
  widen : ∀ epsilon wider, 0.0 ≤ epsilon → epsilon ≤ wider →
    ∀ operator ∈ [.equal, .atMost, .atLeast],
      HoldsAt operator epsilon lhs rhs key → HoldsAt operator wider lhs rhs key

section Entries

variable {lhs rhs : KeyedSet} {key : String}

theorem keys_eval_eq (operator other : Operator) (epsilon wider : Float) (lhs rhs : KeyedSet) :
    (operator.eval epsilon lhs rhs).keys = (other.eval wider lhs rhs).keys :=
  (sameFrame_combine _ _ lhs rhs).keys_eq

theorem eval_of_tolerance_eq (h : tolerance epsilon = tolerance wider)
    (hoperator : operator ∈ comparisons) :
    operator.eval epsilon lhs rhs = operator.eval wider lhs rhs := by
  unfold eval
  congr 1
  fin_cases hoperator <;> simp only [kernel, within, h]

/-- Comparisons are strict. -/
theorem rule_eq_undefined (hoperator : operator ∈ comparisons) {l r : Value}
    (h : l = .undefined ∨ r = .undefined) : operator.rule epsilon l r = .undefined := by
  rcases h with rfl | rfl
  · fin_cases hoperator <;> cases r <;> rfl
  · fin_cases hoperator <;> cases l <;> rfl

variable (hlhs : lhs.WellFormed) (hrhs : rhs.WellFormed)
  (hkey : key ∈ (Operator.equal.eval 0.0 lhs rhs).keys)
  (hoperands : operandsAt lhs rhs key = (.defined x, .defined y))
include hlhs hrhs hkey hoperands

theorem get_eval_of_defined (operator : Operator) (epsilon : Float) :
    (operator.eval epsilon lhs rhs).get key = operator.ofNumbers epsilon x y := by
  rw [keys_eval_eq _ operator _ epsilon] at hkey
  rw [operator.get_eval epsilon hlhs hrhs hkey, hoperands]
  rfl

theorem holdsAt_iff (hoperator : operator ∈ comparisons) (epsilon : Float) :
    HoldsAt operator epsilon lhs rhs key ↔ operator.holds epsilon x y := by
  rw [HoldsAt, get_eval_of_defined hlhs hrhs hkey hoperands, ofNumbers_eq_one_iff hoperator]

theorem failsAt_iff (hoperator : operator ∈ comparisons) (epsilon : Float) :
    FailsAt operator epsilon lhs rhs key ↔ ¬operator.holds epsilon x y := by
  rw [FailsAt, get_eval_of_defined hlhs hrhs hkey hoperands, ofNumbers_eq_zero_iff hoperator]

omit hkey in
theorem isFinite_operands : x.isFinite = true ∧ y.isFinite = true := by
  have hnormal := hlhs.isNormal_operandsAt hrhs key
  rw [hoperands] at hnormal
  exact hnormal

theorem coherentAt : CoherentAt lhs rhs key x y := by
  obtain ⟨hx, hy⟩ := isFinite_operands hlhs hrhs hoperands
  have hxnan := isNaN_of_isFinite hx
  have hynan := isNaN_of_isFinite hy
  have hholds : ∀ {operator} (_ : operator ∈ comparisons) epsilon,
      HoldsAt operator epsilon lhs rhs key ↔ operator.holds epsilon x y :=
    fun hoperator epsilon => holdsAt_iff hlhs hrhs hkey hoperands hoperator epsilon
  have hfails : ∀ {operator} (_ : operator ∈ comparisons) epsilon,
      FailsAt operator epsilon lhs rhs key ↔ ¬operator.holds epsilon x y :=
    fun hoperator epsilon => failsAt_iff hlhs hrhs hkey hoperands hoperator epsilon
  have hequal : Operator.equal ∈ comparisons := by decide
  have hatMost : Operator.atMost ∈ comparisons := by decide
  have hatLeast : Operator.atLeast ∈ comparisons := by decide
  have hless : Operator.less ∈ comparisons := by decide
  have hgreater : Operator.greater ∈ comparisons := by decide
  have htolerant : ∀ {operator}, operator ∈ [Operator.equal, .atMost, .atLeast] →
      operator ∈ comparisons := by
    intro operator hoperator
    fin_cases hoperator <;> decide
  constructor
  case holds_or_fails =>
    intro operator hoperator epsilon
    rw [hholds hoperator, hfails hoperator]
    exact em _
  case unequal_eq_one_sub =>
    intro epsilon
    rw [get_eval_of_defined hlhs hrhs hkey hoperands, get_eval_of_defined hlhs hrhs hkey hoperands]
    exact ofNumbers_unequal epsilon x y
  case not_less_and_greater =>
    intro epsilon
    rw [hholds hless, hholds hgreater, less_iff hx hy, greater_iff hx hy]
    exact fun hboth => lt_asymm hboth.1 hboth.2
  case neither_iff =>
    intro epsilon
    rw [hfails hless, hfails hgreater, less_iff hx hy, greater_iff hx hy, beq_iff hxnan hynan, not_lt,
      not_lt, and_comm]
    exact le_antisymm_iff.symm
  case atMost_of_less =>
    intro epsilon
    rw [hholds hless, hholds hatMost, less_iff hx hy]
    exact fun hlt => atMost_of_le hx hy hlt.le
  case atLeast_of_greater =>
    intro epsilon
    rw [hholds hgreater, hholds hatLeast, greater_iff hx hy]
    exact fun hlt => atLeast_of_le hx hy hlt.le
  case atMost_or_atLeast =>
    intro epsilon
    rw [hholds hatMost, hholds hatLeast]
    exact (le_total (toRat x) (toRat y)).imp (atMost_of_le hx hy) (atLeast_of_le hx hy)
  case of_beq =>
    intro hbeq epsilon operator hoperator
    rw [beq_iff hxnan hynan] at hbeq
    rw [hholds (htolerant hoperator)]
    fin_cases hoperator
    · exact equal_of_eq hx hy hbeq
    · exact atMost_of_le hx hy hbeq.le
    · exact atLeast_of_le hx hy hbeq.ge
  case equal_iff =>
    intro epsilon hzero
    rw [hholds hequal, equal_iff_of_beq_zero hx hy hzero, beq_iff hxnan hynan]
  case atMost_iff =>
    intro epsilon hzero
    rw [hholds hatMost, atMost_iff_of_beq_zero hx hy hzero, le_iff hxnan hynan]
  case atLeast_iff =>
    intro epsilon hzero
    rw [hholds hatLeast, atLeast_iff_of_beq_zero hx hy hzero, le_iff hynan hxnan]
  case widen =>
    intro epsilon wider _ hle operator hoperator
    rw [hholds (htolerant hoperator), hholds (htolerant hoperator)]
    exact holds_of_le hx hy hle hoperator

end Entries

/-- The comparisons of two sets have one frame, and agree with each other at every entry. -/
theorem comparisons_coherent {lhs rhs : KeyedSet} (hlhs : Reachable lhs) (hrhs : Reachable rhs) :
    (∀ operator ∈ comparisons, ∀ other ∈ comparisons, ∀ epsilon wider,
      SameFrame (operator.eval epsilon lhs rhs) (other.eval wider lhs rhs)) ∧
    (∀ operator ∈ comparisons, ∀ epsilon, epsilon < 0.0 ∨ epsilon.isNaN = true →
      operator.eval epsilon lhs rhs = operator.eval 0.0 lhs rhs) ∧
    ∀ key ∈ (Operator.equal.eval 0.0 lhs rhs).keys,
      match operandsAt lhs rhs key with
      | (.defined x, .defined y) => CoherentAt lhs rhs key x y
      | _ => ∀ operator ∈ comparisons, ∀ epsilon,
          (operator.eval epsilon lhs rhs).get key = .undefined := by
  have hl := hlhs.wellFormed
  have hr := hrhs.wellFormed
  refine ⟨fun operator _ other _ epsilon wider => sameFrame_combine _ _ lhs rhs, ?_, ?_⟩
  · intro operator hoperator epsilon hepsilon
    refine eval_of_tolerance_eq ?_ hoperator
    have hzero : tolerance 0.0 = 0.0 := by decide
    rw [hzero]
    exact hepsilon.elim tolerance_of_neg tolerance_of_isNaN
  · intro key hkey
    split
    · next x y hoperands => exact coherentAt hl hr hkey hoperands
    · next hundefined =>
      intro operator hoperator epsilon
      rw [keys_eval_eq _ operator _ epsilon] at hkey
      rw [operator.get_eval epsilon hl hr hkey]
      apply rule_eq_undefined hoperator
      cases hfirst : (operandsAt lhs rhs key).1 with
      | undefined => exact .inl rfl
      | defined x =>
          cases hsecond : (operandsAt lhs rhs key).2 with
          | undefined => exact .inr rfl
          | defined y => exact absurd (Prod.ext hfirst hsecond) (hundefined x y)

theorem comparisons_coherent_of_broadcast :
    let rates := ((bare "WA" .well).push "P1" (.defined 1.1)).push "P2" .undefined
    let limit := KeyedSet.field "FB" (.defined 1.0)
    Reachable rates ∧ Reachable limit ∧ CoherentAt rates limit "P1" 1.1 1.0 ∧
      (∀ epsilon, (Operator.equal.eval epsilon rates limit).get "P2" = .undefined) ∧
      Operator.atMost.eval Binary64.notANumber rates limit = Operator.atMost.eval 0.0 rates limit := by
  intro rates limit
  have hrates : KeyedSet.ofEntries "WA" .well [("P1", .defined 1.1), ("P2", .undefined)] =
      .ok rates := rfl
  have hreachable : Reachable rates := .ofEntries hrates
  obtain ⟨-, hclamped, hentries⟩ := comparisons_coherent hreachable (.field "FB" (.defined 1.0))
  refine ⟨hreachable, .field "FB" (.defined 1.0), hentries "P1" ?_, hentries "P2" ?_ .equal ?_,
    hclamped .atMost ?_ Binary64.notANumber ?_⟩ <;> decide +kernel

end Operator

end Quantities
