import Mathlib
import Quantities.Proofs.Stored.FieldKind
import Quantities.Stored.Settings

/-!
# Settings that are stored in part

Which records and lists are settings, and which settings they are.  A record may leave out any of the five
fields and hold other members; what it leaves out takes its default.  It is refused if a field is repeated,
or given a value that is none of its type.
-/

namespace Quantities

namespace Settings

open Stored JsonReader

variable {members : List (String × JsonTree)} {items : List JsonTree} {text : String}

/-! ## Decoded trees -/

/-- Gives each field at most once and with a value that the field may hold. -/
structure WellTyped (members : List (String × JsonTree)) : Prop where
  once : GivenOnce storedFields members
  reseed : FieldKind.flag.AllowsIn members "reseed"
  randomSeed : FieldKind.word.AllowsIn members "random_seed"
  range : FieldKind.number.AllowsIn members "range"
  undefinedValue : FieldKind.number.AllowsIn members "undefined_value"
  cmpEpsilon : FieldKind.number.AllowsIn members "cmp_epsilon"

/-- Settings with the given values, and with the defaults of the fields that are left out. -/
structure Describes (members : List (String × JsonTree)) (settings : Settings) : Prop where
  reseed : FieldKind.flag.MeansIn members "reseed" ({} : Settings).reseed settings.reseed
  randomSeed :
    FieldKind.word.MeansIn members "random_seed" ({} : Settings).randomSeed settings.randomSeed
  range : FieldKind.number.MeansIn members "range" ({} : Settings).range settings.range
  undefinedValue : FieldKind.number.MeansIn members "undefined_value" ({} : Settings).undefinedValue
    settings.undefinedValue
  cmpEpsilon :
    FieldKind.number.MeansIn members "cmp_epsilon" ({} : Settings).cmpEpsilon settings.cmpEpsilon

theorem exists_ofTree?_eq_some (h : WellTyped members) :
    ∃ settings, ofTree? (recordOf members) = some settings ∧ Describes members settings := by
  obtain ⟨reseed, hreseed, hreseedMeans⟩ := FieldKind.exists_optional_eq_some
    FieldKind.isDecodedBy_flag h.once (by decide) ({} : Settings).reseed h.reseed
  obtain ⟨randomSeed, hseed, hseedMeans⟩ := FieldKind.exists_optional_eq_some
    FieldKind.isDecodedBy_word h.once (by decide) ({} : Settings).randomSeed h.randomSeed
  obtain ⟨range, hrange, hrangeMeans⟩ := FieldKind.exists_optional_eq_some
    FieldKind.isDecodedBy_number h.once (by decide) ({} : Settings).range h.range
  obtain ⟨undefinedValue, hundefined, hundefinedMeans⟩ := FieldKind.exists_optional_eq_some
    FieldKind.isDecodedBy_number h.once (by decide) ({} : Settings).undefinedValue h.undefinedValue
  obtain ⟨cmpEpsilon, hepsilon, hepsilonMeans⟩ := FieldKind.exists_optional_eq_some
    FieldKind.isDecodedBy_number h.once (by decide) ({} : Settings).cmpEpsilon h.cmpEpsilon
  refine ⟨{ reseed, randomSeed, range, undefinedValue, cmpEpsilon }, ?_,
    ⟨hreseedMeans, hseedMeans, hrangeMeans, hundefinedMeans, hepsilonMeans⟩⟩
  unfold ofTree?
  rw [fieldsOf?_recordOf_eq, if_pos h.once]
  simp only [Option.bind_eq_bind, Option.bind_some, hreseed, hseed, hrange, hundefined, hepsilon]
  rfl

theorem wellTyped_of_ofTree?_eq_some {settings : Settings}
    (h : ofTree? (recordOf members) = some settings) : WellTyped members := by
  unfold ofTree? at h
  rw [fieldsOf?_recordOf_eq] at h
  by_cases honce : GivenOnce storedFields members
  · rw [if_pos honce, Option.bind_eq_bind, Option.bind_some] at h
    obtain ⟨reseed, hreseed, h⟩ := Option.bind_eq_some_iff.mp h
    obtain ⟨randomSeed, hseed, h⟩ := Option.bind_eq_some_iff.mp h
    obtain ⟨range, hrange, h⟩ := Option.bind_eq_some_iff.mp h
    obtain ⟨undefinedValue, hundefined, h⟩ := Option.bind_eq_some_iff.mp h
    obtain ⟨cmpEpsilon, hepsilon, -⟩ := Option.bind_eq_some_iff.mp h
    exact {
      once := honce
      reseed := FieldKind.allowsIn_of_optional_eq_some FieldKind.isDecodedBy_flag honce (by decide) hreseed
      randomSeed :=
        FieldKind.allowsIn_of_optional_eq_some FieldKind.isDecodedBy_word honce (by decide) hseed
      range :=
        FieldKind.allowsIn_of_optional_eq_some FieldKind.isDecodedBy_number honce (by decide) hrange
      undefinedValue :=
        FieldKind.allowsIn_of_optional_eq_some FieldKind.isDecodedBy_number honce (by decide) hundefined
      cmpEpsilon :=
        FieldKind.allowsIn_of_optional_eq_some FieldKind.isDecodedBy_number honce (by decide) hepsilon }
  · rw [if_neg honce] at h
    cases h

theorem ofTree?_array (h : items.length ≤ 5) :
    ofTree? (.array items) = ofTree? (recordOf (storedFields.zip items)) := by
  unfold ofTree?
  rw [fieldsOf?_array (by decide) h]

theorem ofTree?_array_of_long (h : 5 < items.length) : ofTree? (.array items) = none := by
  have hlong : ¬items.length ≤ storedFields.length := not_le.mpr h
  unfold ofTree?
  rw [fieldsOf?, if_neg hlong]
  rfl

/-! ## Refused members -/

/-- Is no seed: has a sign, a fraction or an exponent, or too many digits for 64 bits. -/
def IsNoSeed : JsonTree → Prop
  | .integer negative n => negative = true ∨ 2 ^ 64 ≤ n
  | .real _ _ => True
  | _ => False

theorem not_wellTyped_of_isNoSeed {tree : JsonTree} (hmem : ("random_seed", tree) ∈ members)
    (h : IsNoSeed tree) : ¬WellTyped members := by
  intro htyped
  obtain ⟨n, hlt, rfl⟩ := htyped.randomSeed tree hmem
  exact h.elim Bool.false_ne_true (not_le.mpr hlt)

theorem not_wellTyped_of_null {field : String} (hfield : field ∈ storedFields)
    (hnull : (field, .null) ∈ members) : ¬WellTyped members := by
  intro htyped
  have hnumber : ¬FieldKind.number.Allows .null := by
    rintro ⟨negative, magnitude, hliteral, -⟩
    cases hliteral
  have hcases : field = "reseed" ∨ field = "random_seed" ∨ field = "range" ∨
      field = "undefined_value" ∨ field = "cmp_epsilon" := by simpa [storedFields] using hfield
  rcases hcases with rfl | rfl | rfl | rfl | rfl
  · obtain ⟨flag, htree⟩ := htyped.reseed .null hnull
    cases htree
  · obtain ⟨n, -, htree⟩ := htyped.randomSeed .null hnull
    cases htree
  · exact hnumber (htyped.range .null hnull)
  · exact hnumber (htyped.undefinedValue .null hnull)
  · exact hnumber (htyped.cmpEpsilon .null hnull)

/-! ## Decoded texts -/

structure IsAnswer (members : List (String × JsonTree)) (answer : Except ReadError Settings) : Prop where
  accepted : WellTyped members → ∃ settings, answer = .ok settings ∧ Describes members settings
  refused : ¬WellTyped members → answer = .error .malformed

theorem isAnswer_ofTree? (members : List (String × JsonTree)) :
    IsAnswer members (ofOption (ofTree? (recordOf members))) where
  accepted h := by
    obtain ⟨settings, hsettings, hdescribes⟩ := exists_ofTree?_eq_some h
    exact ⟨settings, by rw [hsettings]; rfl, hdescribes⟩
  refused h := by
    cases htree : ofTree? (recordOf members) with
    | none => rfl
    | some settings => exact absurd (wellTyped_of_ofTree?_eq_some htree) h

theorem ofText_of_isElement {tree : JsonTree} (h : IsElement text.toList tree) :
    ofText text = ofOption (ofTree? tree) :=
  readWith_of_isElement h _

/--
Which JSON texts are settings.

- A record is, however it is spelled and whatever other members it has, if it gives each field at most once
  and with a value of its type.  The settings have these values and otherwise the defaults.
- A list is read like the record of its first fields, in the order that they have in settings, and is too
  long with more than five.
- A repeated field, null for a field and anything but an integer in the range of 64 bits for the seed are
  refused.
-/
theorem stored_settings_defaults :
    storedFields = ["reseed", "random_seed", "range", "undefined_value", "cmp_epsilon"] ∧
    (∀ (text : String) members, IsElement text.toList (recordOf members) →
      IsAnswer members (ofText text)) ∧
    (∀ (text : String) items, IsElement text.toList (.array items) →
      (items.length ≤ 5 → IsAnswer (storedFields.zip items) (ofText text) ∧
        ∀ record : String, IsElement record.toList (recordOf (storedFields.zip items)) →
          ofText text = ofText record) ∧
      (5 < items.length → ofText text = .error .malformed)) ∧
    ∀ (text : String) members, IsElement text.toList (recordOf members) →
      ¬GivenOnce storedFields members ∨
        (∃ field ∈ storedFields, (field, .null) ∈ members) ∨
        (∃ tree, ("random_seed", tree) ∈ members ∧ IsNoSeed tree) →
      ofText text = .error .malformed := by
  have hrecord {text : String} {members : List (String × JsonTree)}
      (h : IsElement text.toList (recordOf members)) : IsAnswer members (ofText text) := by
    rw [ofText_of_isElement h]
    exact isAnswer_ofTree? members
  refine ⟨rfl, fun text members => hrecord, fun text items h => ⟨fun hlength => ?_, fun hlength => ?_⟩,
    fun text members h hrefused => (hrecord h).refused ?_⟩
  · have hsame : ofText text = ofOption (ofTree? (recordOf (storedFields.zip items))) := by
      rw [ofText_of_isElement h, ofTree?_array hlength]
    rw [hsame]
    exact ⟨isAnswer_ofTree? _, fun record hspelled => (ofText_of_isElement hspelled).symm⟩
  · rw [ofText_of_isElement h, ofTree?_array_of_long hlength]
    rfl
  · rcases hrefused with hrepeated | ⟨field, hfield, hnull⟩ | ⟨tree, hmem, hseed⟩
    · exact fun htyped => hrepeated htyped.once
    · exact not_wellTyped_of_null hfield hnull
    · exact not_wellTyped_of_isNoSeed hmem hseed

theorem stored_settings_defaults_of_four_fields :
    let text :=
      "\x7b\"note\": [null], \"range\":-0,\"cmp_epsilon\" : 0.01, \"random_seed\":7,\"reseed\":true\x7d "
    let members := [("note", .array [.null]), ("range", .integer true 0),
      ("cmp_epsilon", .real false ⟨1, -2⟩), ("random_seed", .integer false 7),
      ("reseed", .bool true)]
    let settings : Settings := { reseed := true, randomSeed := 7, range := -0.0, cmpEpsilon := 0.01 }
    IsElement text.toList (recordOf members) ∧ WellTyped members ∧ ofText text = .ok settings ∧
      Describes members settings := by
  intro text members settings
  have hblank : AreBlank [] := by simp [AreBlank]
  have hspace : AreBlank [' '] := by simp [AreBlank]
  have hnull : IsElement ['n', 'u', 'l', 'l'] .null := .padded hblank .nullLiteral hblank
  have hnote : SpellsText "note".toList "note".toList := spellsText_self (by simp)
  have hrange : SpellsText "range".toList "range".toList := spellsText_self (by simp)
  have hepsilon : SpellsText "cmp_epsilon".toList "cmp_epsilon".toList := spellsText_self (by simp)
  have hseed : SpellsText "random_seed".toList "random_seed".toList := spellsText_self (by simp)
  have hreseed : SpellsText "reseed".toList "reseed".toList := spellsText_self (by simp)
  have hzero : IsWhole ['0'] := ⟨by simp [IsDigits], .inl rfl⟩
  have hminus : IsValue ['-', '0'] (.integer true 0) := .integer true hzero
  have hseven : IsValue ['7'] (.integer false 7) := .integer false ⟨by simp [IsDigits], .inr (by decide)⟩
  have hnumber : Spells "0.01".toList ⟨1, -2⟩ :=
    ⟨['0'], some ['0', '1'], [], none, rfl, .absent, hzero, by simp [IsDigits], .inl rfl, rfl⟩
  have hrecord := IsElement.padded hblank (.members
    (.next (.pair hblank hnote hblank (.padded hspace (.items (.last hnull)) hblank))
      (.next (.pair hspace hrange hblank (.padded hblank hminus hblank))
        (.next (.pair hblank hepsilon hspace (.padded hspace (.real false hnumber (.inr (by decide))) hblank))
          (.next (.pair hspace hseed hblank (.padded hblank hseven hblank))
            (.last (.pair hblank hreseed hblank (.padded hblank .trueLiteral hblank)))))))) hspace
  have htext : IsElement text.toList (recordOf members) := by
    simpa [text, members, recordOf, JsonWriter.writeSigned] using hrecord
  have htyped : WellTyped members := by
    refine ⟨by decide, ?_, ?_, ?_, ?_, ?_⟩
    · intro tree hmem
      obtain rfl : tree = .bool true := by simpa [members] using hmem
      exact ⟨true, rfl⟩
    · intro tree hmem
      obtain rfl : tree = .integer false 7 := by simpa [members] using hmem
      exact ⟨7, by norm_num, rfl⟩
    · intro tree hmem
      obtain rfl : tree = .integer true 0 := by simpa [members] using hmem
      exact (FieldKind.isDecodedBy_number.isSome_iff _).mp rfl
    · intro tree hmem
      simp [members] at hmem
    · intro tree hmem
      obtain rfl : tree = .real false ⟨1, -2⟩ := by simpa [members] using hmem
      exact (FieldKind.isDecodedBy_number.isSome_iff _).mp (by decide +kernel)
  have hanswer : ofText text = .ok settings := by
    rw [ofText_of_isElement htext]
    decide +kernel
  obtain ⟨found, hfound, hdescribes⟩ := (stored_settings_defaults.2.1 text members htext).accepted htyped
  obtain rfl : found = settings := Except.ok.inj (hfound.symm.trans hanswer)
  exact ⟨htext, htyped, hanswer, hdescribes⟩

end Settings

end Quantities
