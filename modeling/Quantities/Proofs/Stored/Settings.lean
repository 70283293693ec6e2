import Quantities.Proofs.Stored.FieldKind
import Quantities.Proofs.Stored.Value
import Quantities.Stored.Settings

/-!
# Stored settings are read back

Stored settings come back as they were, unless one of their three real numbers is not finite: such a
number is stored as null, and null is no setting.  The check of settings lets some of these through.
-/

namespace Quantities

namespace Settings

def AllFinite (settings : Settings) : Prop :=
  settings.range.isFinite = true ∧ settings.undefinedValue.isFinite = true ∧
    settings.cmpEpsilon.isFinite = true

instance (settings : Settings) : Decidable settings.AllFinite :=
  inferInstanceAs (Decidable (_ ∧ _ ∧ _))

theorem isNormal_toTree (settings : Settings) : settings.toTree.IsNormal :=
  ⟨trivial, trivial, JsonTree.isNormal_ofFloat _, JsonTree.isNormal_ofFloat _,
    JsonTree.isNormal_ofFloat _, trivial⟩

def fieldTrees (settings : Settings) : List (String × JsonTree) := [
  ("reseed", .bool settings.reseed),
  ("random_seed", .integer false settings.randomSeed.toNat),
  ("range", .ofFloat settings.range),
  ("undefined_value", .ofFloat settings.undefinedValue),
  ("cmp_epsilon", .ofFloat settings.cmpEpsilon)]

theorem fieldsOf?_toTree (settings : Settings) :
    Stored.fieldsOf? storedFields settings.toTree = some settings.fieldTrees := by
  have hrecord : settings.toTree = Stored.recordOf settings.fieldTrees := rfl
  rw [hrecord]
  exact Stored.fieldsOf?_recordOf (by simp [fieldTrees, storedFields]) (by simp [fieldTrees])

/-- The number of a setting that is finite, and no number otherwise. -/
theorem float?_ofFloat_eq (x : Float) :
    (JsonTree.ofFloat x).float? = if x.isFinite then some x else none := by
  by_cases hx : x.isFinite = true
  · rw [if_pos hx, JsonTree.float?_ofFloat hx]
  · rw [if_neg hx, JsonTree.float?_ofFloat_of_not_isFinite (by simpa using hx)]

theorem ofTree?_toTree (settings : Settings) :
    ofTree? settings.toTree = if settings.AllFinite then some settings else none := by
  have hreseed (default : Bool) : Stored.optional JsonTree.flag? settings.fieldTrees "reseed" default =
      some settings.reseed := rfl
  have hseed (default : UInt64) : Stored.optional JsonTree.word? settings.fieldTrees "random_seed"
      default = some settings.randomSeed := Stored.FieldKind.word?_eq_some_iff.mpr rfl
  have hrange (default : Float) : Stored.optional JsonTree.float? settings.fieldTrees "range" default =
      if settings.range.isFinite then some settings.range else none := float?_ofFloat_eq _
  have hundefined (default : Float) : Stored.optional JsonTree.float? settings.fieldTrees
      "undefined_value" default =
        if settings.undefinedValue.isFinite then some settings.undefinedValue else none :=
    float?_ofFloat_eq _
  have hepsilon (default : Float) : Stored.optional JsonTree.float? settings.fieldTrees
      "cmp_epsilon" default =
        if settings.cmpEpsilon.isFinite then some settings.cmpEpsilon else none :=
    float?_ofFloat_eq _
  unfold ofTree?
  rw [fieldsOf?_toTree]
  simp only [Option.bind_eq_bind, Option.bind_some, hreseed, hseed, hrange, hundefined, hepsilon]
  unfold AllFinite
  by_cases h₁ : settings.range.isFinite = true <;>
    by_cases h₂ : settings.undefinedValue.isFinite = true <;>
      by_cases h₃ : settings.cmpEpsilon.isFinite = true <;>
        simp [h₁, h₂, h₃]

/--
Whatever the check of settings says, stored settings come back in all five fields if their numbers are
finite and are refused if they are not.
-/
theorem stored_settings_round_trip (settings : Settings) :
    ofText settings.toText = if settings.AllFinite then .ok settings else .error .malformed := by
  rw [ofText, toText, Stored.readWith_text (isNormal_toTree settings), ofTree?_toTree]
  split <;> rfl

/-- An infinite range passes the check of settings, and such settings do not come back. -/
theorem infinite_range_not_restored :
    let settings : Settings := { range := Binary64.infinity }
    settings.validate = .ok () ∧ ofText settings.toText = .error .malformed := by
  intro settings
  have hfinite : ¬settings.AllFinite := fun h => absurd h.1 (by decide)
  have hvalid : settings.validate = .ok () := by
    unfold validate
    rw [if_neg (by decide +kernel), if_neg (by decide +kernel)]
  refine ⟨hvalid, ?_⟩
  rw [ofText, toText, Stored.readWith_text (isNormal_toTree settings), ofTree?_toTree,
    if_neg hfinite]
  rfl

end Settings

end Quantities
