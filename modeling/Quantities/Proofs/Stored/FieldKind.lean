import Mathlib
import Quantities.Proofs.Decimal.Nearest
import Quantities.Proofs.Stored.Record

/-!
# Kinds of fields

What a field of a record may hold and what it means, said of the tree and apart from the decoders: a truth
value, an integer without sign that fits 64 bits, and a number that is rounded to a finite double.  The
decoders accept what is allowed and answer with what is meant.
-/

namespace Quantities

namespace Stored

/-- Which trees a field may hold, and which value each of them means. -/
structure FieldKind (α : Type) where
  Allows : JsonTree → Prop
  Means : JsonTree → α → Prop

inductive IsLiteral : JsonTree → Bool → ℚ → Prop where
  | integer (negative : Bool) (n : Nat) : IsLiteral (.integer negative n) negative n
  | real (negative : Bool) (d : Decimal) : IsLiteral (.real negative d) negative d.value

namespace FieldKind

open Binary64

def flag : FieldKind Bool where
  Allows tree := ∃ flag, tree = .bool flag
  Means tree flag := tree = .bool flag

/-- The written number, which has no sign, no fraction and no exponent. -/
def word : FieldKind UInt64 where
  Allows tree := ∃ n < 2 ^ 64, tree = .integer false n
  Means tree word := tree = .integer false word.toNat

/-- The nearest double to the written number, with its sign. -/
def number : FieldKind Float where
  Allows tree := ∃ negative magnitude, IsLiteral tree negative magnitude ∧ magnitude < overflowStart
  Means tree x := ∃ negative magnitude, IsLiteral tree negative magnitude ∧ IsNearest negative magnitude x

variable {α : Type} {kind : FieldKind α} {decode : JsonTree → Option α} {fields : List String}
  {members : List (String × JsonTree)} {field : String} {tree : JsonTree} {default value : α}

/-! ## Decoders -/

/-- Accepts what is allowed, and answers with what is meant. -/
structure IsDecodedBy (kind : FieldKind α) (decode : JsonTree → Option α) : Prop where
  isSome_iff : ∀ tree, (decode tree).isSome = true ↔ kind.Allows tree
  means : ∀ tree value, decode tree = some value → kind.Means tree value

theorem isDecodedBy_flag : flag.IsDecodedBy JsonTree.flag? where
  isSome_iff tree := by
    cases tree with
    | bool b => exact iff_of_true rfl ⟨b, rfl⟩
    | _ => exact iff_of_false Bool.false_ne_true (by rintro ⟨b, h⟩; cases h)
  means tree value h := by
    cases tree with
    | bool b => exact congrArg JsonTree.bool (Option.some.inj h)
    | _ => cases h

theorem word?_eq_some_iff {word : UInt64} :
    tree.word? = some word ↔ tree = .integer false word.toNat := by
  constructor
  · intro h
    cases tree with
    | integer negative n =>
        cases negative with
        | true => cases h
        | false =>
            rw [JsonTree.word?] at h
            split at h
            · next hlt =>
              obtain rfl := Option.some.inj h
              rw [UInt64.toNat_ofNat_of_lt' hlt]
            · cases h
    | _ => cases h
  · rintro rfl
    have hlt : word.toNat < UInt64.size := word.toNat_lt
    rw [JsonTree.word?, if_pos hlt, UInt64.ofNat_toNat]

theorem isDecodedBy_word : word.IsDecodedBy JsonTree.word? where
  isSome_iff tree := by
    constructor
    · intro h
      obtain ⟨word, hword⟩ := Option.isSome_iff_exists.mp h
      exact ⟨word.toNat, word.toNat_lt, word?_eq_some_iff.mp hword⟩
    · rintro ⟨n, hlt, rfl⟩
      have hsame : (UInt64.ofNat n).toNat = n := UInt64.toNat_ofNat_of_lt' hlt
      have hword := word?_eq_some_iff.mpr (congrArg (JsonTree.integer false) hsame.symm)
      exact Option.isSome_iff_exists.mpr ⟨_, hword⟩
  means tree word h := word?_eq_some_iff.mp h

/-- Literals of both forms are read through a decimal of the same magnitude. -/
theorem float?_of_isLiteral {negative : Bool} {magnitude : ℚ} (h : IsLiteral tree negative magnitude) :
    ∃ d : Decimal, d.value = magnitude ∧ tree.float? =
      if d.toFloat.isFinite then some (JsonTree.signed negative d.toFloat) else none := by
  cases h with
  | integer _ n => exact ⟨⟨n, 0⟩, by rw [Decimal.value, zpow_zero, mul_one], rfl⟩
  | real _ d => exact ⟨d, rfl, rfl⟩

theorem exists_isLiteral_of_float? {x : Float} (h : tree.float? = some x) :
    ∃ negative magnitude, IsLiteral tree negative magnitude := by
  cases tree with
  | integer negative n => exact ⟨negative, n, .integer negative n⟩
  | real negative d => exact ⟨negative, d.value, .real negative d⟩
  | _ => cases h

theorem isDecodedBy_number : number.IsDecodedBy JsonTree.float? where
  isSome_iff tree := by
    constructor
    · intro h
      obtain ⟨x, hx⟩ := Option.isSome_iff_exists.mp h
      obtain ⟨negative, magnitude, hliteral⟩ := exists_isLiteral_of_float? hx
      obtain ⟨d, rfl, hfloat⟩ := float?_of_isLiteral hliteral
      rw [hfloat] at hx
      split at hx
      · next hfinite => exact ⟨negative, _, hliteral, d.isFinite_toFloat_iff.mp hfinite⟩
      · cases hx
    · rintro ⟨negative, magnitude, hliteral, hlt⟩
      obtain ⟨d, rfl, hfloat⟩ := float?_of_isLiteral hliteral
      rw [hfloat, if_pos (d.isFinite_toFloat_iff.mpr hlt)]
      rfl
  means tree x hx := by
    obtain ⟨negative, magnitude, hliteral⟩ := exists_isLiteral_of_float? hx
    obtain ⟨d, rfl, hfloat⟩ := float?_of_isLiteral hliteral
    rw [hfloat] at hx
    split at hx
    · next hfinite =>
      obtain rfl := Option.some.inj hx
      exact ⟨negative, _, hliteral, Decimal.isNearest_signed_toFloat (d.isFinite_toFloat_iff.mp hfinite)
        negative⟩
    · cases hx

/-! ## Members -/

def AllowsIn (kind : FieldKind α) (members : List (String × JsonTree)) (field : String) : Prop :=
  ∀ tree, (field, tree) ∈ members → kind.Allows tree

/-- Is what the members give for a field, and its default if they do not give it. -/
structure MeansIn (kind : FieldKind α) (members : List (String × JsonTree)) (field : String)
    (default value : α) : Prop where
  given : ∀ tree, (field, tree) ∈ members → kind.Means tree value
  absent : (∀ tree, (field, tree) ∉ members) → value = default

theorem exists_optional_eq_some (hdecode : kind.IsDecodedBy decode) (honce : GivenOnce fields members)
    (hfield : field ∈ fields) (default : α) (h : kind.AllowsIn members field) :
    ∃ value, optional decode (known fields members) field default = some value ∧
      kind.MeansIn members field default value := by
  unfold optional
  rw [lookup_known hfield]
  cases hlookup : members.lookup field with
  | none =>
      refine ⟨default, rfl, fun tree hmem => ?_, fun _ => rfl⟩
      rw [lookup_of_mem honce hfield hmem] at hlookup
      cases hlookup
  | some tree =>
      have hmem : (field, tree) ∈ members := by
        obtain ⟨before, after, rfl, -⟩ := List.lookup_eq_some_iff.mp hlookup
        simp
      obtain ⟨value, hvalue⟩ := Option.isSome_iff_exists.mp ((hdecode.isSome_iff tree).mpr (h tree hmem))
      refine ⟨value, hvalue, fun other hother => ?_, fun habsent => absurd hmem (habsent tree)⟩
      rw [lookup_of_mem honce hfield hother] at hlookup
      obtain rfl := Option.some.inj hlookup
      exact hdecode.means other value hvalue

theorem allowsIn_of_optional_eq_some (hdecode : kind.IsDecodedBy decode)
    (honce : GivenOnce fields members) (hfield : field ∈ fields)
    (h : optional decode (known fields members) field default = some value) :
    kind.AllowsIn members field := by
  intro tree hmem
  unfold optional at h
  rw [lookup_known hfield, lookup_of_mem honce hfield hmem] at h
  exact (hdecode.isSome_iff tree).mp (Option.isSome_iff_exists.mpr ⟨value, h⟩)

end FieldKind

end Stored

end Quantities
