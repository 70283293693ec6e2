import Mathlib
import Quantities.Binary64.Elementary
import Quantities.Proofs.Binary64.Addition

/-!
# The sign of zero

Two doubles are alike if they are the same up to the sign of a zero.  Comparisons do not tell alike doubles
apart, and arithmetic gives alike results on alike operands.  Only the reciprocals of the two zeros are
different infinities, which quotients meet in the divisor and powers in the base.
-/

namespace Quantities

namespace Binary64

open Float.Model (UnpackedFloat Format)
open Float.Model.UnpackedFloat

/-! ## Unpacked doubles -/

def unsigned : UnpackedFloat → UnpackedFloat
  | .zero _ => .zero .positive
  | u => u

theorem eq_or_zeros_of_unsigned_eq {u v : UnpackedFloat} (h : unsigned u = unsigned v) :
    u = v ∨ (∃ s, u = .zero s) ∧ ∃ t, v = .zero t := by
  cases u with
  | zero s =>
      cases v with
      | zero t => exact .inr ⟨⟨s, rfl⟩, t, rfl⟩
      | _ => cases h
  | _ =>
      cases v with
      | zero t => cases h
      | _ => exact .inl h

theorem unsigned_repacked {u v : UnpackedFloat} (h : unsigned u = unsigned v) :
    unsigned (repacked u) = unsigned (repacked v) := by
  rcases eq_or_zeros_of_unsigned_eq h with rfl | ⟨⟨s, rfl⟩, t, rfl⟩
  · rfl
  · have hzero : ∀ sign, repacked (.zero sign) = .zero sign := fun sign => unpack_packedZero
    rw [hzero, hzero]
    rfl

theorem unsigned_add (u v : UnpackedFloat) :
    unsigned (UnpackedFloat.add .binary64 u v) =
      unsigned (UnpackedFloat.add .binary64 (unsigned u) (unsigned v)) := by
  cases u with
  | zero s =>
      cases v with
      | zero t => cases s <;> cases t <;> rfl
      | _ => rfl
  | _ => cases v <;> rfl

theorem unsigned_mul (u v : UnpackedFloat) :
    unsigned (UnpackedFloat.mul .binary64 u v) =
      unsigned (UnpackedFloat.mul .binary64 (unsigned u) (unsigned v)) := by
  cases u <;> cases v <;> rfl

theorem unsigned_div (u v : UnpackedFloat) :
    unsigned (UnpackedFloat.div .binary64 u v) =
      unsigned (UnpackedFloat.div .binary64 (unsigned u) v) := by
  cases u <;> cases v <;> rfl

theorem compare_unsigned (u v : UnpackedFloat) :
    u.compare v = (unsigned u).compare (unsigned v) := by
  cases u with
  | infinity s => cases v <;> cases s <;> rfl
  | zero s =>
      cases v with
      | infinity t => cases t <;> rfl
      | finite t n f hn => cases t <;> rfl
      | _ => rfl
  | finite s m e hm => cases v <;> cases s <;> rfl
  | notANumber => rfl

/-! ## Doubles -/

/-- Are the same, up to the sign of a zero. -/
def Alike (x y : Float) : Prop :=
  unsigned x.toModel.unpack = unsigned y.toModel.unpack

variable {w x y z : Float}

theorem eq_zero_of_unpack_eq_zero {s : UnpackedFloat.Sign} (h : x.toModel.unpack = .zero s) :
    x = 0.0 ∨ x = -0.0 := by
  cases s with
  | positive => exact .inl (eq_of_unpack_eq h)
  | negative => exact .inr (eq_of_unpack_eq h)

namespace Alike

theorem refl (x : Float) : Alike x x :=
  Eq.refl _

theorem symm (h : Alike x y) : Alike y x :=
  Eq.symm h

theorem eq_or_zeros (h : Alike x y) : x = y ∨ x = 0.0 ∧ y = -0.0 ∨ x = -0.0 ∧ y = 0.0 := by
  rcases eq_or_zeros_of_unsigned_eq h with heq | ⟨⟨s, hx⟩, t, hy⟩
  · exact .inl (eq_of_unpack_eq heq)
  · rcases eq_zero_of_unpack_eq_zero hx with rfl | rfl <;>
      rcases eq_zero_of_unpack_eq_zero hy with rfl | rfl
    · exact .inl rfl
    · exact .inr (.inl ⟨rfl, rfl⟩)
    · exact .inr (.inr ⟨rfl, rfl⟩)
    · exact .inl rfl

/-- A function that does not tell the two zeros apart does not tell any alike doubles apart. -/
theorem map_eq (h : Alike x y) {β : Type} {f : Float → β} (hzeros : f 0.0 = f (-0.0)) :
    f x = f y := by
  rcases h.eq_or_zeros with rfl | ⟨rfl, rfl⟩ | ⟨rfl, rfl⟩
  · rfl
  · exact hzeros
  · exact hzeros.symm

theorem map (h : Alike x y) {f : Float → Float} (hzeros : Alike (f 0.0) (f (-0.0))) :
    Alike (f x) (f y) :=
  h.map_eq (f := fun z => unsigned (f z).toModel.unpack) hzeros

/-! ### Comparisons -/

theorem toRat_eq (h : Alike x y) : toRat x = toRat y :=
  h.map_eq rfl

theorem isNaN_eq (h : Alike x y) : x.isNaN = y.isNaN :=
  h.map_eq rfl

theorem isFinite_eq (h : Alike x y) : x.isFinite = y.isFinite :=
  h.map_eq rfl

theorem compare_eq (hw : Alike w x) (hy : Alike y z) :
    w.toModel.unpack.compare y.toModel.unpack = x.toModel.unpack.compare z.toModel.unpack := by
  rw [compare_unsigned, hw, hy, ← compare_unsigned]

theorem lt_iff (hw : Alike w x) (hy : Alike y z) : w < y ↔ x < z := by
  show decide (w.toModel.unpack.lt y.toModel.unpack = true) = true ↔
    decide (x.toModel.unpack.lt z.toModel.unpack = true) = true
  rw [UnpackedFloat.lt, UnpackedFloat.lt, hw.compare_eq hy]

theorem le_iff (hw : Alike w x) (hy : Alike y z) : w ≤ y ↔ x ≤ z := by
  show decide (w.toModel.unpack.le y.toModel.unpack = true) = true ↔
    decide (x.toModel.unpack.le z.toModel.unpack = true) = true
  rw [UnpackedFloat.le, UnpackedFloat.le, hw.compare_eq hy]

theorem beq_eq (hw : Alike w x) (hy : Alike y z) : (w == y) = (x == z) := by
  show (w.toModel.unpack.compare y.toModel.unpack == some .eq) =
    (x.toModel.unpack.compare z.toModel.unpack == some .eq)
  rw [hw.compare_eq hy]

/-- Doubles that stand for the same number are alike. -/
theorem of_toRat_eq (hx : x.isFinite = true) (hy : y.isFinite = true) (h : toRat x = toRat y) :
    Alike x y := by
  have hbeq := (beq_iff (isNaN_of_isFinite hx) (isNaN_of_isFinite hy)).mpr h
  rw [Float.beq_iff_ne_nan_and_eq] at hbeq
  rcases hbeq with ⟨-, -, rfl | ⟨rfl, rfl⟩ | ⟨rfl, rfl⟩⟩
  · exact refl x
  · rfl
  · rfl

theorem eq_of_not_le_zero (h : Alike x y) (hx : ¬x ≤ 0.0) : x = y := by
  rcases h.eq_or_zeros with rfl | ⟨rfl, rfl⟩ | ⟨rfl, rfl⟩
  · rfl
  · exact absurd (by decide) hx
  · exact absurd (by decide) hx

theorem eq_of_bne_zero (h : Alike x y) (hx : ¬(x == 0.0) = true) : x = y := by
  rcases h.eq_or_zeros with rfl | ⟨rfl, rfl⟩ | ⟨rfl, rfl⟩
  · rfl
  · exact absurd rfl hx
  · exact absurd rfl hx

theorem larger (hw : Alike w x) (hy : Alike y z) : Alike (larger w y) (larger x z) := by
  simp only [Binary64.larger, hw.lt_iff hy, hw.isNaN_eq]
  split
  · exact hy
  · exact hw

theorem smaller (hw : Alike w x) (hy : Alike y z) : Alike (smaller w y) (smaller x z) := by
  simp only [Binary64.smaller, hy.lt_iff hw, hw.isNaN_eq]
  split
  · exact hy
  · exact hw

/-! ### Arithmetic -/

theorem add (hw : Alike w x) (hy : Alike y z) : Alike (w + y) (x + z) := by
  refine unsigned_repacked (u := .add .binary64 w.toModel.unpack y.toModel.unpack) ?_
  rw [unsigned_add, hw, hy, ← unsigned_add]

theorem neg (h : Alike x y) : Alike (-x) (-y) :=
  h.map (f := fun z => -z) rfl

theorem sub (hw : Alike w x) (hy : Alike y z) : Alike (w - y) (x - z) := by
  rw [sub_eq, sub_eq]
  exact hw.add hy.neg

theorem abs (h : Alike x y) : Alike x.abs y.abs :=
  h.map (f := Float.abs) rfl

theorem mul (hw : Alike w x) (hy : Alike y z) : Alike (w * y) (x * z) := by
  refine unsigned_repacked (u := .mul .binary64 w.toModel.unpack y.toModel.unpack) ?_
  rw [unsigned_mul, hw, hy, ← unsigned_mul]

theorem div (h : Alike x y) (z : Float) : Alike (x / z) (y / z) := by
  refine unsigned_repacked (u := .div .binary64 x.toModel.unpack z.toModel.unpack) ?_
  rw [unsigned_div, h, ← unsigned_div]

theorem sqrt (h : Alike x y) : Alike x.sqrt y.sqrt :=
  h.map (f := Float.sqrt) rfl

/-! ### Other functions -/

theorem nearestInteger (h : Alike x y) : Alike (nearestInteger x) (nearestInteger y) :=
  h.map (f := Binary64.nearestInteger) rfl

theorem exp_eq (h : Alike x y) : exp x = exp y :=
  h.map_eq rfl

theorem isInteger_eq (h : Alike x y) : isInteger x = isInteger y :=
  h.map_eq rfl

theorem power_exponent (w : Float) (h : Alike x y) : power w x = power w y := by
  apply h.map_eq
  unfold power
  cases w.toModel.unpack <;> rfl

/-- Powers of the two zeros are alike, unless they are infinities of both signs. -/
theorem power_base (h : Alike x y) (z : Float) :
    Alike (power x z) (power y z) ∨ (power x z).isFinite = false ∧ (power y z).isFinite = false := by
  have hzeros : Alike (power 0.0 z) (power (-0.0) z) ∨
      (power 0.0 z).isFinite = false ∧ (power (-0.0) z).isFinite = false := by
    have hpositive : (0.0 : Float).toModel.unpack = .zero .positive := rfl
    have hnegative : (-0.0 : Float).toModel.unpack = .zero .negative := rfl
    unfold power
    rw [hpositive, hnegative]
    -- Odd exponents keep the sign of the base: negative ones give an infinity, positive ones a zero.
    cases z.toModel.unpack with
    | finite s m e hm =>
        cases s <;> simp only [] <;> split
        · exact .inr ⟨rfl, rfl⟩
        · exact .inr ⟨rfl, rfl⟩
        · exact .inl rfl
        · exact .inl rfl
    | _ => exact .inl rfl
  rcases h.eq_or_zeros with rfl | ⟨rfl, rfl⟩ | ⟨rfl, rfl⟩
  · exact .inl (refl _)
  · exact hzeros
  · exact hzeros.imp symm And.symm

end Alike

end Binary64

end Quantities
