import Mathlib
import Quantities.Proofs.Binary64.Order
import Quantities.Value

/-!
# Related values

A relation of numbers is one of values, if undefined is related to undefined only.  Two lists of values
are related entry by entry when the same entries are defined and their numbers are related in order.
-/

namespace Quantities

namespace Value

/-- Both values are undefined, or both are numbers that are related. -/
inductive Related (R : Float → Float → Prop) : Value → Value → Prop where
  | undefined : Related R .undefined .undefined
  | defined {x y : Float} (h : R x y) : Related R (.defined x) (.defined y)

/-- Both values are undefined, or both are numbers and stand for the same one. -/
def SameNumber : Value → Value → Prop :=
  Related fun x y => Binary64.toRat x = Binary64.toRat y

section Related

variable {R S : Float → Float → Prop} {l r : Value} {first second : List Value}

theorem Related.isDefined_eq (h : Related R l r) : l.isDefined = r.isDefined := by
  cases h <;> rfl

theorem Related.imp (hRS : ∀ x y, R x y → S x y) (h : Related R l r) : Related S l r := by
  cases h with
  | undefined => exact .undefined
  | defined h => exact .defined (hRS _ _ h)

theorem Related.of_eq (hR : ∀ x, R x x) (h : l = r) : Related R l r := by
  rw [← h]
  cases l with
  | undefined => exact .undefined
  | defined x => exact .defined (hR x)

theorem SameNumber.of_eq (h : l = r) : l.SameNumber r :=
  Related.of_eq (fun _ => rfl) h

theorem related_eq_iff : Related Eq l r ↔ l = r := by
  constructor
  · rintro (_ | rfl) <;> rfl
  · exact .of_eq Eq.refl

/-- Values are related when the same ones are defined and their numbers are related in order. -/
theorem forall₂_related_of_numbers (hdefined : first.map isDefined = second.map isDefined)
    (hnumbers : List.Forall₂ R (first.filterMap number?) (second.filterMap number?)) :
    List.Forall₂ (Related R) first second := by
  induction first generalizing second with
  | nil =>
      rw [List.map_eq_nil_iff.mp hdefined.symm]
      exact .nil
  | cons l rest ih =>
      cases second with
      | nil => cases hdefined
      | cons r later =>
          obtain ⟨hhead, htail⟩ := List.cons.inj hdefined
          cases l with
          | undefined =>
              cases r with
              | undefined => exact .cons .undefined (ih htail hnumbers)
              | defined y => cases hhead
          | defined x =>
              cases r with
              | undefined => cases hhead
              | defined y =>
                  obtain ⟨hxy, hrest⟩ := List.forall₂_cons.mp hnumbers
                  exact .cons (.defined hxy) (ih htail hrest)

/-- Values are determined by which of them are defined and by their numbers in order. -/
theorem eq_of_numbers (hdefined : first.map isDefined = second.map isDefined)
    (hnumbers : first.filterMap number? = second.filterMap number?) : first = second := by
  rw [← List.forall₂_eq_eq_eq] at hnumbers ⊢
  exact (forall₂_related_of_numbers hdefined hnumbers).imp fun _ _ => related_eq_iff.mp

theorem map_isDefined_eq_of_forall₂ (h : List.Forall₂ (Related R) first second) :
    first.map isDefined = second.map isDefined := by
  rw [← List.forall₂_eq_eq_eq]
  exact List.rel_map (fun _ _ hvalue => hvalue.isDefined_eq) h

theorem forall₂_numbers_of_related (h : List.Forall₂ (Related R) first second) :
    List.Forall₂ R (first.filterMap number?) (second.filterMap number?) := by
  refine List.rel_filterMap ?_ h
  rintro _ _ (_ | hnumber)
  · exact .none
  · exact .some hnumber

end Related

end Value

end Quantities
