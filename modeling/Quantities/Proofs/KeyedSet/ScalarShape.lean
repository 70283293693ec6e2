import Quantities.Proofs.Operator.Pairing

/-!
# The shape of scalar-typed sets

A scalar-typed set is built with exactly one entry, and no operation but the union of keys can give it
another one.  The union keeps the kind of its first operand and appends the keys of the second, so it
widens a scalar-typed set exactly when the second operand holds a key that the set does not.
-/

namespace Quantities

namespace KeyedSet

variable {s t : KeyedSet}

def ScalarShaped (s : KeyedSet) : Prop :=
  s.kind.isScalar = true → s.size = 1

theorem ScalarShaped.of_same_keys (h : s.ScalarShaped) (hkind : t.kind = s.kind)
    (hkeys : t.keys = s.keys) : t.ScalarShaped := by
  intro hscalar
  rw [hkind] at hscalar
  rw [← length_keys, hkeys, length_keys]
  exact h hscalar

/-! ## Constructors -/

inductive Built : KeyedSet → Prop where
  | ofEntries {name : String} {kind : Kind} {entries : List (String × Value)} {s : KeyedSet}
      (h : KeyedSet.ofEntries name kind entries = .ok s) : Built s
  | ofKeys {name : String} {kind : Kind} {keys : List String} {s : KeyedSet}
      (h : KeyedSet.ofKeys name kind keys = .ok s) : Built s
  | wells {name : String} {keys : List String} {value : Value} {s : KeyedSet}
      (h : KeyedSet.wells name keys value = .ok s) : Built s
  | groups {name : String} {keys : List String} {value : Value} {s : KeyedSet}
      (h : KeyedSet.groups name keys value = .ok s) : Built s
  | scalar (name : String) (value : Value) : Built (KeyedSet.scalar name value)
  | empty (name : String) : Built (KeyedSet.empty name)
  | field (name : String) (value : Value) : Built (KeyedSet.field name value)
  | ofText {text : String} {s : KeyedSet} (h : KeyedSet.ofText text = .ok s) : Built s

theorem kind_pushAll {entries : List (String × Value)} (h : s.pushAll entries = .ok t) :
    t.kind = s.kind := by
  induction entries generalizing s with
  | nil =>
      cases h
      rfl
  | cons entry rest ih =>
      obtain ⟨key, value⟩ := entry
      unfold pushAll at h
      split at h
      · cases h
      · rw [ih h, kind_push]

theorem scalarShaped_ofEntries {name : String} {kind : Kind} {entries : List (String × Value)}
    (h : ofEntries name kind entries = .ok s) : s.ScalarShaped := by
  unfold ofEntries at h
  split at h
  · cases h
  · next pushed hpushed =>
    have hkind : pushed.kind = kind := kind_pushAll hpushed
    split at h
    · cases h
    · next hshape =>
      cases h
      intro hscalar
      rw [hkind] at hscalar
      simpa [hscalar] using hshape

theorem Built.scalarShaped (h : Built s) : s.ScalarShaped := by
  cases h with
  | ofEntries h | ofKeys h | wells h | groups h => exact scalarShaped_ofEntries h
  | scalar name value => exact fun _ => rfl
  | empty name => exact fun _ => rfl
  | field name value => exact fun _ => rfl
  | ofText h =>
      obtain ⟨name, kind, entries, hentries⟩ := exists_ofEntries_of_ofText h
      exact scalarShaped_ofEntries hentries

theorem Built.reachable (h : Built s) : Reachable s := by
  cases h with
  | ofEntries h => exact .ofEntries h
  | ofKeys h => exact .ofKeys h
  | wells h => exact .wells h
  | groups h => exact .groups h
  | scalar name value => exact .scalar name value
  | empty name => exact .empty name
  | field name value => exact .field name value
  | ofText h => exact .ofText h

/-! ## Operations on one set -/

inductive Revises (s : KeyedSet) : KeyedSet → Prop where
  | assign {t : KeyedSet} {key : String} {value : Value} (h : s.assign key value = .ok t) :
      Revises s t
  | assignAt {t : KeyedSet} {position : Nat} {value : Value}
      (h : s.assignAt? position value = some t) : Revises s t
  | assignAll (value : Value) : Revises s (s.assignAll value)
  | mapThreaded {σ : Type} (step : σ → Value → Value × σ) (state : σ) :
      Revises s (s.mapThreaded step state).1
  | renamed (name : String) : Revises s (s.renamed name)
  | applyRange (settings : Settings) : Revises s (settings.applyRange s)
  | transform (transform : Transform) : Revises s (transform.eval s)
  | draw (draw : Draw) (g : Generator) : Revises s (draw.eval g s).1

/-- Operations on one set leave its kind and its keys as they are. -/
theorem Revises.same_keys (h : Revises s t) : t.kind = s.kind ∧ t.keys = s.keys := by
  cases h with
  | assign h =>
      unfold KeyedSet.assign at h
      split at h <;> cases h
      exact ⟨rfl, rfl⟩
  | assignAt h =>
      unfold assignAt? at h
      split at h <;> cases h
      exact ⟨rfl, rfl⟩
  | transform transform => cases transform <;> exact ⟨rfl, rfl⟩
  | assignAll | mapThreaded | renamed | applyRange | draw => exact ⟨rfl, rfl⟩

theorem Revises.reachable (h : Revises s t) (hs : Reachable s) : Reachable t := by
  cases h with
  | assign h => exact .assign hs h
  | assignAt h => exact .assignAt hs h
  | assignAll value => exact .assignAll value hs
  | mapThreaded step state => exact .mapThreaded step state hs
  | renamed name => exact .renamed name hs
  | applyRange settings => exact .applyRange settings hs
  | transform transform => exact .transform transform hs
  | draw draw g => exact .draw draw g hs

/-! ## Operations on two sets -/

/-- A combination is scalar-typed only if both operands are, and then it has the keys of the first. -/
theorem same_keys_combine (f : Value → Value → Value)
    (hscalar : (combine f s t).kind.isScalar = true) :
    (combine f s t).kind = s.kind ∧ (combine f s t).keys = s.keys := by
  cases ht : t.kind.isScalar with
  | true =>
      rw [combine_of_scalar_right f ht]
      exact ⟨rfl, rfl⟩
  | false =>
      cases hs : s.kind.isScalar with
      | true => simp [combine_of_scalar_left f hs ht, ht] at hscalar
      | false => simp [kind_combine_of_keyed f hs ht, hs] at hscalar

theorem size_keyUnion (s t : KeyedSet) :
    (s.keyUnion t).size = s.size + (s.missingKeys t).length := by
  rw [← length_keys, keys_keyUnion, List.length_append, length_keys]

/-- A union adds no entry exactly when it brings no new key. -/
theorem WellFormed.size_keyUnion_eq_iff (h : s.WellFormed) :
    (s.keyUnion t).size = s.size ↔ t.keys ⊆ s.keys := by
  rw [size_keyUnion, ← h.missingKeys_eq_nil_iff, ← List.length_eq_zero_iff]
  omega

def KeepsShape (s t : KeyedSet) : Prop :=
  s.kind.isScalar = true → t.keys ⊆ s.keys

theorem ScalarShaped.keyUnion (hs : s.ScalarShaped) (h : s.WellFormed) (hkeys : s.KeepsShape t) :
    (s.keyUnion t).ScalarShaped := by
  intro hscalar
  rw [kind_keyUnion] at hscalar
  rw [h.size_keyUnion_eq_iff.mpr (hkeys hscalar), hs hscalar]

/-! ## Runs -/

/-- The results of finitely many operations that start from such sets only and unite such pairs of sets
only as are allowed. -/
inductive ReachableBy (start : KeyedSet → Prop) (allowed : KeyedSet → KeyedSet → Prop) :
    KeyedSet → Prop where
  | built {s : KeyedSet} (h : Built s) (hstart : start s) : ReachableBy start allowed s
  | revised {s t : KeyedSet} (hs : ReachableBy start allowed s) (h : Revises s t) :
      ReachableBy start allowed t
  | operator {s t : KeyedSet} (operator : Operator) (epsilon : Float)
      (hs : ReachableBy start allowed s) (ht : ReachableBy start allowed t) :
      ReachableBy start allowed (operator.eval epsilon s t)
  | keyUnion {s t : KeyedSet} (hs : ReachableBy start allowed s) (ht : ReachableBy start allowed t)
      (h : allowed s t) : ReachableBy start allowed (s.keyUnion t)

variable {start : KeyedSet → Prop} {allowed : KeyedSet → KeyedSet → Prop}

theorem ReachableBy.reachable (h : ReachableBy start allowed s) : Reachable s := by
  induction h with
  | built h _ => exact h.reachable
  | revised _ h ih => exact h.reachable ih
  | operator operator epsilon _ _ ihs iht => exact .operator operator epsilon ihs iht
  | keyUnion _ _ _ ihs iht => exact .keyUnion ihs iht

/-- With every start and every union allowed these are all reachable sets. -/
theorem reachableBy_iff_reachable :
    ReachableBy (fun _ => True) (fun _ _ => True) s ↔ Reachable s := by
  refine ⟨ReachableBy.reachable, fun h => ?_⟩
  induction h with
  | ofEntries h => exact .built (.ofEntries h) trivial
  | ofKeys h => exact .built (.ofKeys h) trivial
  | wells h => exact .built (.wells h) trivial
  | groups h => exact .built (.groups h) trivial
  | scalar name value => exact .built (.scalar name value) trivial
  | empty name => exact .built (.empty name) trivial
  | field name value => exact .built (.field name value) trivial
  | ofText h => exact .built (.ofText h) trivial
  | assign _ h ih => exact .revised ih (.assign h)
  | assignAt _ h ih => exact .revised ih (.assignAt h)
  | assignAll value _ ih => exact .revised ih (.assignAll value)
  | mapThreaded step state _ ih => exact .revised ih (.mapThreaded step state)
  | renamed name _ ih => exact .revised ih (.renamed name)
  | keyUnion _ _ ihs iht => exact .keyUnion ihs iht trivial
  | applyRange settings _ ih => exact .revised ih (.applyRange settings)
  | transform transform _ ih => exact .revised ih (.transform transform)
  | draw draw g _ ih => exact .revised ih (.draw draw g)
  | operator operator epsilon _ _ ihs iht => exact .operator operator epsilon ihs iht

/-- As long as unions bring no new key to scalar-typed sets, these keep their one entry. -/
theorem ReachableBy.scalarShaped (h : ReachableBy start KeepsShape s) : s.ScalarShaped := by
  induction h with
  | built h _ => exact h.scalarShaped
  | revised _ h ih =>
      obtain ⟨hkind, hkeys⟩ := h.same_keys
      exact ih.of_same_keys hkind hkeys
  | operator operator epsilon _ _ ihs _ =>
      intro hscalar
      obtain ⟨hkind, hkeys⟩ := same_keys_combine _ hscalar
      exact ihs.of_same_keys hkind hkeys hscalar
  | keyUnion hs _ hkeys ihs _ => exact ihs.keyUnion hs.reachable.wellFormed hkeys

/-- Whatever unions a run makes, a scalar-typed set has an entry to broadcast. -/
theorem Reachable.size_pos (h : Reachable s) (hscalar : s.kind.isScalar = true) : 0 < s.size := by
  -- Grouped by what an operation does to the keys, so that four cases are enough.
  rw [← reachableBy_iff_reachable] at h
  induction h with
  | built h _ =>
      rw [h.scalarShaped hscalar]
      exact Nat.one_pos
  | revised _ h ih =>
      obtain ⟨hkind, hkeys⟩ := h.same_keys
      rw [hkind] at hscalar
      rw [← length_keys, hkeys, length_keys]
      exact ih hscalar
  | operator operator epsilon _ _ ihs _ =>
      obtain ⟨hkind, hkeys⟩ := same_keys_combine _ hscalar
      have hs := ihs (hkind ▸ hscalar)
      rwa [Operator.eval, ← length_keys, hkeys, length_keys]
  | keyUnion _ _ _ ihs _ =>
      rw [kind_keyUnion] at hscalar
      have hs := ihs hscalar
      rw [size_keyUnion]
      omega

/--
Entries of a scalar-typed set: at least one after every run, and exactly one after every run whose unions
bring no new key to scalar-typed sets.  One more union then leaves exactly one if and only if it brings no
new key.
-/
theorem scalar_shape (hscalar : s.kind.isScalar = true) :
    (Reachable s → 0 < s.size) ∧
    (ReachableBy (fun _ => True) KeepsShape s →
      s.size = 1 ∧ ((s.keyUnion t).size = 1 ↔ t.keys ⊆ s.keys)) := by
  refine ⟨fun hs => hs.size_pos hscalar, fun hs => ?_⟩
  have hone : s.size = 1 := hs.scalarShaped hscalar
  refine ⟨hone, ?_⟩
  rw [← hs.reachable.wellFormed.size_keyUnion_eq_iff, hone]

theorem scalar_shape_of_shared_key :
    let total := KeyedSet.scalar "FU" (.defined 3.0)
    let shared := (bare "WA" .well).push "" (.defined 1.0)
    let field := KeyedSet.field "FB" (.defined 2.0)
    let union := total.keyUnion shared
    union.kind.isScalar = true ∧ 0 < union.size ∧ union.size = 1 ∧
      ((union.keyUnion field).size = 1 ↔ field.keys ⊆ union.keys) := by
  intro total shared field union
  have hshared : KeyedSet.ofEntries "WA" .well [("", .defined 1.0)] = .ok shared := rfl
  have htotal : ReachableBy (fun _ => True) KeepsShape total :=
    .built (.scalar "FU" (.defined 3.0)) trivial
  have hunion : ReachableBy (fun _ => True) KeepsShape union :=
    .keyUnion htotal (.built (.ofEntries hshared) trivial) fun _ => List.Subset.refl [""]
  obtain ⟨hpos, hshape⟩ := scalar_shape (s := union) (t := field) rfl
  exact ⟨rfl, hpos hunion.reachable, hshape hunion⟩

/-- The union of the two kinds of scalar-typed sets is a scalar-typed set with two entries. -/
theorem keyUnion_scalar_field_widens :
    let union := (KeyedSet.scalar "FU" (.defined 3.0)).keyUnion (KeyedSet.field "FB" (.defined 2.0))
    Reachable union ∧ union.kind.isScalar = true ∧ union.keys = ["", "FIELD"] ∧ union.size ≠ 1 := by
  intro union
  have hkeys : union.keys = ["", "FIELD"] := by decide +kernel
  refine ⟨.keyUnion (.scalar _ _) (.field _ _), rfl, hkeys, ?_⟩
  rw [← length_keys, hkeys]
  decide

end KeyedSet

end Quantities
