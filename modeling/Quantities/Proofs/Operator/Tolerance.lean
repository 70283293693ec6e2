import Quantities.Proofs.Operator.Comparison

/-!
# Equality and orders within a tolerance

Equality rounds the difference of its operands, and the orders round the bounds of an interval around the
second one.  The three agree where the operands lie within the tolerance or apart by clearly more than it;
in the narrow band between, they agree unless one of the three results is rounded.
-/

namespace Quantities

namespace Operator

open Binary64 KeyedSet

variable {epsilon x y : Float}

theorem toRat_nonneg (h : 0.0 ≤ epsilon) : 0 ≤ toRat epsilon := by
  have hle := (le_iff (isNaN_of_le h).1 (isNaN_of_le h).2).mp h
  rwa [toRat_zero] at hle

theorem tolerance_of_nonneg (h : 0.0 ≤ epsilon) : tolerance epsilon = epsilon := by
  have hnan := (isNaN_of_le h).2
  have hnotNeg : ¬epsilon < 0.0 := by
    rw [lt_iff hnan isNaN_zero, toRat_zero, not_lt]
    exact toRat_nonneg h
  simp only [tolerance, larger, hnan, hnotNeg, decide_false, Bool.or_false, Bool.false_eq_true,
    if_false]

/-- The band above the tolerance in which rounding may decide. -/
def slack (x y : Float) : ℚ :=
  2 ^ (-52 : ℤ) * max |toRat x| |toRat y|

/-- A bound that is clearly below a number is rounded to one below it. -/
theorem rounded_add_lt {p q t : ℚ} {k : ℤ} (ht : 0 ≤ t) (hk : q + t = k * 2 ^ (-1074 : ℤ))
    (h : t + 2 ^ (-52 : ℤ) * max |p| |q| < p - q) : rounded (q + t) < p := by
  have hband : 0 ≤ (2 : ℚ) ^ (-52 : ℤ) * max |p| |q| := by positivity
  have herror := (le_abs_self _).trans (abs_rounded_sub_le hk)
  have hsize : |q + t| ≤ max |q| |p| := abs_le_max_abs_abs (by linarith) (by linarith)
  have hhalf : (2 : ℚ) ^ (-53 : ℤ) * |q + t| ≤ 2 ^ (-52 : ℤ) * max |p| |q| := by
    rw [max_comm |p|]
    exact mul_le_mul (by norm_num) hsize (abs_nonneg _) (two_zpow_pos _).le
  linarith

section Finite

variable (hx : x.isFinite = true) (hy : y.isFinite = true) (h : 0.0 ≤ epsilon)
include hx hy h

theorem holds_of_not_isFinite (hinfinite : epsilon.isFinite = false) :
    Operator.equal.holds epsilon x y ∧ Operator.atMost.holds epsilon x y ∧
      Operator.atLeast.holds epsilon x y := by
  have hnan := (isNaN_of_le h).2
  have htop : toRat epsilon = beyond := by
    rw [← abs_toRat_of_not_isFinite hnan hinfinite, abs_of_nonneg (toRat_nonneg h)]
  have hbounds := abs_le.mp (abs_toRat_le x)
  refine ⟨?_, ?_, ?_⟩
  · rw [equal_iff hx hy, tolerance_of_nonneg h, htop]
    exact min_le_right _ _
  · rw [atMost_iff hx hy, tolerance_of_nonneg h, toRat_add_of_not_isFinite hy hnan hinfinite, htop]
    exact hbounds.2
  · have hneg : (-epsilon).isFinite = false := by rw [isFinite_neg, hinfinite]
    rw [atLeast_iff hx hy, tolerance_of_nonneg h, sub_eq,
      toRat_add_of_not_isFinite hy ((isNaN_neg epsilon).trans hnan) hneg, toRat_neg, htop]
    exact hbounds.1

theorem holds_of_abs_sub_le (hfinite : epsilon.isFinite = true)
    (hle : |toRat x - toRat y| ≤ toRat epsilon) :
    Operator.equal.holds epsilon x y ∧ Operator.atMost.holds epsilon x y ∧
      Operator.atLeast.holds epsilon x y := by
  obtain ⟨hlow, hhigh⟩ := abs_le.mp hle
  refine ⟨?_, ?_, ?_⟩
  · rw [equal_iff hx hy, tolerance_of_nonneg h, ← rounded_toRat hfinite]
    exact (min_le_left _ _).trans (rounded_mono hle)
  · rw [atMost_iff hx hy, tolerance_of_nonneg h, toRat_add hy hfinite, ← clamped_rounded_toRat hx]
    exact clamped_mono (rounded_mono (by linarith))
  · rw [atLeast_iff hx hy, tolerance_of_nonneg h, toRat_sub hy hfinite]
    rw [← clamped_rounded_toRat hx]
    exact clamped_mono (rounded_mono (by linarith))

theorem not_equal_of_slack_lt (hfinite : epsilon.isFinite = true)
    (hlt : toRat epsilon + slack x y < |toRat x - toRat y|) :
    ¬Operator.equal.holds epsilon x y := by
  rw [equal_iff hx hy, tolerance_of_nonneg h, min_le_iff, not_or]
  obtain ⟨k, hk⟩ := exists_toRat_sub_eq hx hy
  have herror := abs_rounded_sub_le hk
  have hinside := (abs_lt.mp ((isFinite_iff (isNaN_of_isFinite hfinite)).mp hfinite)).2
  refine ⟨fun hle => ?_, not_le.mpr hinside⟩
  have hlost : |toRat x - toRat y| - |rounded (toRat x - toRat y)| ≤
      |rounded (toRat x - toRat y) - (toRat x - toRat y)| := by
    rw [abs_sub_comm (rounded _)]
    exact abs_sub_abs_le_abs_sub _ _
  have hsize : |toRat x - toRat y| ≤ 2 * max |toRat x| |toRat y| := by
    linarith [abs_sub (toRat x) (toRat y), le_max_left |toRat x| |toRat y|,
      le_max_right |toRat x| |toRat y|]
  rw [rounded_abs] at hle
  rw [slack] at hlt
  norm_num at hlt herror
  linarith

theorem not_both_of_slack_lt (hfinite : epsilon.isFinite = true)
    (hlt : toRat epsilon + slack x y < |toRat x - toRat y|) :
    ¬(Operator.atMost.holds epsilon x y ∧ Operator.atLeast.holds epsilon x y) := by
  rw [atMost_iff hx hy, atLeast_iff hx hy, tolerance_of_nonneg h, toRat_add hy hfinite,
    toRat_sub hy hfinite]
  rintro ⟨hatMost, hatLeast⟩
  have hnonneg := toRat_nonneg h
  have hinside := abs_lt.mp ((isFinite_iff (isNaN_of_isFinite hx)).mp hx)
  rw [slack] at hlt
  -- The larger operand decides which of the two bounds is missed.
  rcases abs_cases (toRat x - toRat y) with ⟨habs, -⟩ | ⟨habs, -⟩
  · obtain ⟨k, hk⟩ := exists_toRat_sub_eq hy ((isFinite_neg epsilon).trans hfinite)
    rw [toRat_neg, sub_neg_eq_add] at hk
    rw [habs] at hlt
    have hbelow := rounded_add_lt hnonneg hk hlt
    exact absurd (le_of_le_clamped hinside.1 hatMost) (not_le.mpr hbelow)
  · obtain ⟨k, hk⟩ := exists_toRat_sub_eq hfinite hy
    rw [sub_eq_neg_add] at hk
    rw [habs, neg_sub, ← abs_neg (toRat x), ← abs_neg (toRat y), ← neg_sub_neg] at hlt
    have hbelow := rounded_add_lt hnonneg hk hlt
    rw [← sub_eq_neg_add, ← neg_sub, rounded_neg, neg_lt_neg_iff] at hbelow
    exact absurd (le_of_clamped_le hinside.2 hatLeast) (not_le.mpr hbelow)

/-- Without rounding, equality is what the orders have in common. -/
theorem equal_iff_orders_of_exact (hdifference : toRat (x - y) = toRat x - toRat y)
    (hupper : toRat (y + epsilon) = toRat y + toRat epsilon)
    (hlower : toRat (y - epsilon) = toRat y - toRat epsilon) :
    Operator.equal.holds epsilon x y ↔
      Operator.atMost.holds epsilon x y ∧ Operator.atLeast.holds epsilon x y := by
  rw [atMost_iff hx hy, atLeast_iff hx hy, holds, tolerance_of_nonneg h,
    le_iff (isNaN_abs_sub hx hy) (isNaN_of_le h).2, toRat_abs, hdifference, hupper, hlower,
    abs_sub_le_iff]
  constructor
  · rintro ⟨hhigh, hlow⟩
    constructor <;> linarith
  · rintro ⟨hhigh, hlow⟩
    constructor <;> linarith

end Finite

/--
Equality and the orders within a tolerance.  They hold together when the operands are at most the tolerance
apart, and neither equality nor both orders hold when they are apart by more than the band above it.  In
the band they agree if none of the three results that decide them is rounded.
-/
theorem equal_and_orders {lhs rhs : KeyedSet} {key : String} (hlhs : Reachable lhs)
    (hrhs : Reachable rhs) (h : 0.0 ≤ epsilon)
    (hkey : key ∈ (Operator.equal.eval epsilon lhs rhs).keys)
    (hoperands : operandsAt lhs rhs key = (.defined x, .defined y)) :
    (epsilon.isFinite = false ∨ |toRat x - toRat y| ≤ toRat epsilon →
      HoldsAt .equal epsilon lhs rhs key ∧ HoldsAt .atMost epsilon lhs rhs key ∧
        HoldsAt .atLeast epsilon lhs rhs key) ∧
    (epsilon.isFinite = true → toRat epsilon + slack x y < |toRat x - toRat y| →
      FailsAt .equal epsilon lhs rhs key ∧
        (FailsAt .atMost epsilon lhs rhs key ∨ FailsAt .atLeast epsilon lhs rhs key)) ∧
    (toRat (x - y) = toRat x - toRat y → toRat (y + epsilon) = toRat y + toRat epsilon →
      toRat (y - epsilon) = toRat y - toRat epsilon →
      (HoldsAt .equal epsilon lhs rhs key ↔
        HoldsAt .atMost epsilon lhs rhs key ∧ HoldsAt .atLeast epsilon lhs rhs key)) := by
  obtain ⟨hx, hy⟩ := isFinite_operands hlhs.wellFormed hrhs.wellFormed hoperands
  rw [keys_eval_eq .equal .equal epsilon 0.0] at hkey
  have hholds : ∀ {operator} (_ : operator ∈ comparisons),
      HoldsAt operator epsilon lhs rhs key ↔ operator.holds epsilon x y :=
    fun hoperator => holdsAt_iff hlhs.wellFormed hrhs.wellFormed hkey hoperands hoperator epsilon
  have hfails : ∀ {operator} (_ : operator ∈ comparisons),
      FailsAt operator epsilon lhs rhs key ↔ ¬operator.holds epsilon x y :=
    fun hoperator => failsAt_iff hlhs.wellFormed hrhs.wellFormed hkey hoperands hoperator epsilon
  have hequal : Operator.equal ∈ comparisons := by decide
  have hatMost : Operator.atMost ∈ comparisons := by decide
  have hatLeast : Operator.atLeast ∈ comparisons := by decide
  rw [hholds hequal, hholds hatMost, hholds hatLeast, hfails hequal, hfails hatMost, hfails hatLeast]
  refine ⟨?_, ?_, equal_iff_orders_of_exact hx hy h⟩
  · rintro (hinfinite | hle)
    · exact holds_of_not_isFinite hx hy h hinfinite
    · cases hfinite : epsilon.isFinite with
      | true => exact holds_of_abs_sub_le hx hy h hfinite hle
      | false => exact holds_of_not_isFinite hx hy h hfinite
  · intro hfinite hlt
    exact ⟨not_equal_of_slack_lt hx hy h hfinite hlt,
      not_and_or.mp (not_both_of_slack_lt hx hy h hfinite hlt)⟩

theorem equal_and_orders_of_rates :
    let rates := ((bare "WA" .well).push "P1" (.defined 3.0)).push "P2" (.defined 3.0)
    let targets := ((bare "WB" .well).push "P1" (.defined 2.0)).push "P2" (.defined 1.0)
    (0.0 : Float) ≤ 1.0 ∧ HoldsAt .equal 1.0 rates targets "P1" ∧
      FailsAt .equal 1.0 rates targets "P2" := by
  intro rates targets
  have hrates : KeyedSet.ofEntries "WA" .well [("P1", .defined 3.0), ("P2", .defined 3.0)] =
      .ok rates := rfl
  have htargets : KeyedSet.ofEntries "WB" .well [("P1", .defined 2.0), ("P2", .defined 1.0)] =
      .ok targets := rfl
  have hone : toRat 1.0 = 1 := by
    have hunpack : (1.0 : Float).toModel.unpack = .finite .positive (2 ^ 52) (-52) (by norm_num) := rfl
    rw [toRat, hunpack, ratOf_finite_positive]
    norm_num
  have htwo : toRat 2.0 = 2 := by
    have hunpack : (2.0 : Float).toModel.unpack = .finite .positive (2 ^ 52) (-51) (by norm_num) := rfl
    rw [toRat, hunpack, ratOf_finite_positive]
    norm_num
  have hthree : toRat 3.0 = 3 := by
    have hunpack : (3.0 : Float).toModel.unpack =
        .finite .positive (3 * 2 ^ 51) (-51) (by norm_num) := rfl
    rw [toRat, hunpack, ratOf_finite_positive]
    norm_num
  have hnonneg : (0.0 : Float) ≤ 1.0 := by decide +kernel
  have hkeys : ∀ key ∈ ["P1", "P2"], key ∈ (Operator.equal.eval 1.0 rates targets).keys := by
    decide +kernel
  have hnear := equal_and_orders (.ofEntries hrates) (.ofEntries htargets) hnonneg
    (hkeys "P1" (by decide)) (x := 3.0) (y := 2.0) rfl
  have hfar := equal_and_orders (.ofEntries hrates) (.ofEntries htargets) hnonneg
    (hkeys "P2" (by decide)) (x := 3.0) (y := 1.0) rfl
  refine ⟨hnonneg, (hnear.1 (.inr ?_)).1, (hfar.2.1 ?_ ?_).1⟩
  · rw [hthree, htwo, hone]
    norm_num
  · decide +kernel
  · rw [slack, hthree, hone]
    norm_num

/-- Rounding decides in the band: two numbers that are not equal although neither exceeds the other by more
than the tolerance, and two that are equal although one does. -/
theorem equal_differs_from_orders :
    let rates := ((bare "WA" .well).push "P1" (.defined 1.1)).push "P2" (.defined 9007199254740992.0)
    let targets := ((bare "WB" .well).push "P1" (.defined 1.0)).push "P2" (.defined (-1.0))
    Reachable rates ∧ Reachable targets ∧
      (0.0 : Float) ≤ 0.1 ∧ FailsAt .equal 0.1 rates targets "P1" ∧
        HoldsAt .atMost 0.1 rates targets "P1" ∧ HoldsAt .atLeast 0.1 rates targets "P1" ∧
      (0.0 : Float) ≤ 9007199254740992.0 ∧
        HoldsAt .equal 9007199254740992.0 rates targets "P2" ∧
        FailsAt .atMost 9007199254740992.0 rates targets "P2" := by
  intro rates targets
  have hrates : KeyedSet.ofEntries "WA" .well
      [("P1", .defined 1.1), ("P2", .defined 9007199254740992.0)] = .ok rates := rfl
  have htargets : KeyedSet.ofEntries "WB" .well [("P1", .defined 1.0), ("P2", .defined (-1.0))] =
      .ok targets := rfl
  refine ⟨.ofEntries hrates, .ofEntries htargets, ?_⟩
  unfold HoldsAt FailsAt
  decide +kernel

end Operator

end Quantities
