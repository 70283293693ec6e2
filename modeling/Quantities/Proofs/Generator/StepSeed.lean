import Mathlib
import Quantities.Settings

/-!
# Seeds of report steps

Under one seed no two report steps are given the same step seed, and in one step no two seeds lead to the
same one.  The multiplier that spreads the steps has an inverse modulo `2 ^ 64`, so that a step can be
computed back from its seed.
-/

namespace Quantities

namespace Generator

variable (seed step : UInt64)

theorem toNat_stepSeed :
    (stepSeed seed step).toNat =
      seed.toNat ^^^ (step.toNat + 1) * 0x9e3779b97f4a7c15 % 2 ^ 64 := by
  have hmultiplier : (0x9e3779b97f4a7c15 : UInt64).toNat = 0x9e3779b97f4a7c15 := rfl
  have hone : (1 : UInt64).toNat = 1 := rfl
  rw [stepSeed, UInt64.toNat_xor, UInt64.toNat_mul, UInt64.toNat_add, hmultiplier, hone,
    Nat.mod_mul_mod]

def stepOfSeed (mixed : UInt64) : UInt64 :=
  (seed ^^^ mixed) * 0xf1de83e19937733d - 1

theorem mul_spread_mul_inverse (word : UInt64) :
    word * 0x9e3779b97f4a7c15 * 0xf1de83e19937733d = word := by
  have hunit : (0x9e3779b97f4a7c15 : UInt64) * 0xf1de83e19937733d = 1 := by decide
  rw [UInt64.mul_assoc, hunit, UInt64.mul_one]

theorem stepOfSeed_stepSeed : stepOfSeed seed (stepSeed seed step) = step := by
  rw [stepOfSeed, stepSeed, ← UInt64.xor_assoc, UInt64.xor_self, UInt64.zero_xor,
    mul_spread_mul_inverse, UInt64.add_sub_cancel]

theorem stepSeed_injective : Function.Injective (stepSeed seed) :=
  Function.LeftInverse.injective (stepOfSeed_stepSeed seed)

theorem stepSeed_injective_left : Function.Injective fun seed => stepSeed seed step :=
  fun _ _ h => (UInt64.xor_left_inj _).mp h

/-- Only the last of all steps leaves the seed as it is: there the increment wraps to zero. -/
theorem stepSeed_eq_seed_iff : stepSeed seed step = seed ↔ step.toNat = 2 ^ 64 - 1 := by
  have hlast : stepSeed seed 0xffffffffffffffff = seed := by
    have hwraps : (0xffffffffffffffff : UInt64) + 1 = 0 := rfl
    rw [stepSeed, hwraps, UInt64.zero_mul, UInt64.xor_zero]
  have htoNat : (0xffffffffffffffff : UInt64).toNat = 2 ^ 64 - 1 := rfl
  rw [← htoNat, UInt64.toNat_inj]
  constructor
  · intro h
    exact stepSeed_injective seed (h.trans hlast.symm)
  · rintro rfl
    exact hlast

/--
Seeds of report steps never collide.

- A run that reseeds enters a step with the generator of the step seed, which is computed modulo `2 ^ 64`;
  a run as a whole starts from the generator of the seed itself.
- Under one seed the step seed is different for different steps, and in one step for different seeds.
- It is the seed itself in the last of all steps, and in no other.
-/
theorem step_seeds_never_collide :
    (∀ seed step, seededForStep seed step = seeded (stepSeed seed step) ∧
      (stepSeed seed step).toNat =
        seed.toNat ^^^ (step.toNat + 1) * 0x9e3779b97f4a7c15 % 2 ^ 64) ∧
    (∀ settings : Settings, settings.runGenerator = seeded settings.randomSeed ∧
      ∀ running step, settings.reseed = true →
        settings.generatorForStep running step = seededForStep settings.randomSeed step) ∧
    (∀ seed, Function.Injective (stepSeed seed)) ∧
    (∀ step, Function.Injective fun seed => stepSeed seed step) ∧
    ∀ seed step, stepSeed seed step = seed ↔ step.toNat = 2 ^ 64 - 1 := by
  refine ⟨fun seed step => ⟨rfl, toNat_stepSeed seed step⟩,
    fun settings => ⟨rfl, fun running step hreseed => ?_⟩, stepSeed_injective,
    stepSeed_injective_left, stepSeed_eq_seed_iff⟩
  rw [Settings.generatorForStep, if_pos hreseed]

theorem step_seeds_never_collide_at_ends :
    let settings : Settings := { reseed := true, randomSeed := 7 }
    let first : UInt64 := 0
    let last : UInt64 := 0xffffffffffffffff
    settings.generatorForStep settings.runGenerator first = seededForStep 7 first ∧
      (stepSeed 7 1).toNat = 7 ^^^ 2 * 0x9e3779b97f4a7c15 % 2 ^ 64 ∧
      stepSeed 7 first ≠ stepSeed 7 1 ∧
      stepSeed 7 first ≠ stepSeed 8 first ∧
      stepSeed 7 last = 7 ∧ stepSeed 7 first ≠ 7 := by
  intro settings first last
  obtain ⟨hmodulo, hentered, hsteps, hseeds, hplain⟩ := step_seeds_never_collide
  exact ⟨(hentered settings).2 settings.runGenerator first rfl, (hmodulo 7 1).2,
    (hsteps 7).ne (by decide), (hseeds first).ne (by decide), (hplain 7 last).mpr rfl,
    fun h => absurd ((hplain 7 first).mp h) (by decide)⟩

end Generator

end Quantities
