import Quantities.Generator.Sampling

/-!
# Rounds of rejection

The draws that reject points go on until one is accepted.  Here they are bounded, with a last resort behind
the bound.  Unless every round within the bound rejects, the answer is that of the rounds without a bound.
-/

namespace Quantities

namespace Generator

variable {α : Type} {round : Generator → Option α × Generator} {lastResort : α} {g : Generator}
  {r r' : α × Generator}

/-- The answer of the rounds without a bound on their number: that of the first round that accepts. -/
inductive Settles (round : Generator → Option α × Generator) : Generator → α × Generator → Prop where
  | accept {g rest : Generator} {x : α} (h : round g = (some x, rest)) : Settles round g (x, rest)
  | reject {g rest : Generator} {r : α × Generator} (h : round g = (none, rest))
      (hs : Settles round rest r) : Settles round g r

def RejectsFirst (round : Generator → Option α × Generator) : Nat → Generator → Prop
  | 0, _ => True
  | rounds + 1, g => (round g).1 = none ∧ RejectsFirst round rounds (round g).2

theorem Settles.unique (h : Settles round g r) (h' : Settles round g r') : r = r' := by
  induction h with
  | accept h =>
      cases h' with
      | accept h' =>
          rw [h] at h'
          cases h'
          rfl
      | reject h' _ =>
          rw [h] at h'
          cases h'
  | reject h _ ih =>
      cases h' with
      | accept h' =>
          rw [h] at h'
          cases h'
      | reject h' hs' =>
          rw [h] at h'
          cases h'
          exact ih hs'

/-- Rounds that settle give their answer within any bound that is large enough. -/
theorem Settles.exists_untilAccepted_eq (h : Settles round g r) (lastResort : α) :
    ∃ enough, ∀ attempts, enough ≤ attempts → untilAccepted round lastResort attempts g = r := by
  induction h with
  | accept h =>
      refine ⟨1, fun attempts hattempts => ?_⟩
      obtain ⟨more, rfl⟩ := Nat.exists_eq_add_of_le' hattempts
      simp only [untilAccepted, h]
  | reject h _ ih =>
      obtain ⟨enough, henough⟩ := ih
      refine ⟨enough + 1, fun attempts hattempts => ?_⟩
      obtain ⟨more, rfl⟩ := Nat.exists_eq_add_of_le' hattempts
      simp only [untilAccepted, h]
      exact henough _ (Nat.le_add_left _ _)

theorem untilAccepted_of_rejectsFirst {attempts : Nat} (h : RejectsFirst round attempts g) :
    (untilAccepted round lastResort attempts g).1 = lastResort := by
  induction attempts generalizing g with
  | zero => rfl
  | succ attempts ih =>
      obtain ⟨hnone, hrest⟩ := h
      unfold untilAccepted
      rcases hstep : round g with ⟨_ | x, rest⟩
      · rw [hstep] at hrest
        exact ih hrest
      · rw [hstep] at hnone
        cases hnone

/-- A bounded answer is that of the rounds without the bound, unless all of them reject. -/
theorem settles_untilAccepted {attempts : Nat} (h : ¬RejectsFirst round attempts g) :
    Settles round g (untilAccepted round lastResort attempts g) := by
  induction attempts generalizing g with
  | zero => exact absurd trivial h
  | succ attempts ih =>
      unfold untilAccepted
      rcases hstep : round g with ⟨_ | x, rest⟩
      · refine .reject hstep (ih fun hrest => h ?_)
        rw [RejectsFirst, hstep]
        exact ⟨rfl, hrest⟩
      · exact .accept hstep

/-- What holds of the last resort and of every accepted answer holds of the answer. -/
theorem untilAccepted_of_round {P : α → Prop} (hlast : P lastResort)
    (hround : ∀ g x, (round g).1 = some x → P x) (attempts : Nat) (g : Generator) :
    P (untilAccepted round lastResort attempts g).1 := by
  induction attempts generalizing g with
  | zero => exact hlast
  | succ attempts ih =>
      have hanswer := hround g
      unfold untilAccepted
      rcases hstep : round g with ⟨_ | x, rest⟩
      · exact ih rest
      · exact hanswer x (congrArg Prod.fst hstep)

end Generator

end Quantities
