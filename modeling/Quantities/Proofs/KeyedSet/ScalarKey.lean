import Quantities.Proofs.KeyedSet.Construction
import Quantities.Proofs.KeyedSet.ScalarShape

/-!
# The key of a scalar-typed set

A scalar-typed set broadcasts the value of its first entry, and that value can be read by key as well.  The
constructors of the two scalar kinds store it under a key that belongs to the kind, and no operation
replaces the first key of a set.  A set that is built from entries, however, takes whatever key it is given,
and reading it under the key of its kind misses the value.
-/

namespace Quantities

namespace KeyedSet

variable {s t : KeyedSet} {first key : String} {rest : List String}

/-- The key under which the constructor of a scalar kind stores the value. -/
def valueKey : Kind → String
  | .field => fieldKey
  | _ => ""

def KeyedByKind (s : KeyedSet) : Prop :=
  s.kind.isScalar = true → s.keys = [valueKey s.kind]

theorem keyedByKind_scalar (name : String) (value : Value) : (scalar name value).KeyedByKind :=
  fun _ => rfl

theorem keyedByKind_field (name : String) (value : Value) : (field name value).KeyedByKind :=
  fun _ => rfl

theorem keys_pushAll {entries : List (String × Value)} (h : s.pushAll entries = .ok t) :
    t.keys = s.keys ++ entries.map Prod.fst := by
  induction entries generalizing s with
  | nil =>
      cases h
      simp
  | cons entry rest ih =>
      obtain ⟨key, value⟩ := entry
      unfold pushAll at h
      split at h
      · cases h
      · rw [ih h, keys_push, List.append_assoc]
        rfl

/-- The key of the one entry decides; no other key is refused. -/
theorem keyedByKind_ofEntries_iff {name : String} {kind : Kind} {entries : List (String × Value)}
    (h : ofEntries name kind entries = .ok s) :
    s.KeyedByKind ↔ (kind.isScalar = true → entries.map Prod.fst = [valueKey kind]) := by
  unfold ofEntries at h
  split at h
  · cases h
  · next pushed hpushed =>
    have hkind : pushed.kind = kind := kind_pushAll hpushed
    have hkeys : pushed.keys = entries.map Prod.fst := by simpa using keys_pushAll hpushed
    split at h <;> cases h
    rw [KeyedByKind, hkind, hkeys]

/-! ## Readings -/

/-- Reading under the first key is reading the first entry. -/
theorem WellFormed.get_first (h : s.WellFormed) (hkeys : s.keys = first :: rest) :
    s.get first = s.scalarValue := by
  have hlength : s.values.length = rest.length + 1 := by rw [h.length_values, hkeys, List.length_cons]
  obtain ⟨value, values, hvalues⟩ := List.exists_cons_of_length_eq_add_one hlength
  have hget : s.get first = value :=
    h.get_eq_of_getElem? (i := 0) (by rw [hkeys]; rfl) (by rw [hvalues]; rfl)
  rw [hget, scalarValue_eq_headD, hvalues]
  rfl

/-- Reading under another key misses the first entry, unless it is undefined. -/
theorem WellFormed.get_eq_scalarValue_iff (h : s.WellFormed) (hkeys : s.keys = first :: rest)
    (hkey : key ∉ rest) :
    s.get key = s.scalarValue ↔ first = key ∨ s.scalarValue = .undefined := by
  by_cases hfirst : first = key
  · rw [← hfirst, h.get_first hkeys]
    simp
  · have habsent : key ∉ s.keys := by
      rw [hkeys, List.mem_cons, not_or]
      exact ⟨fun heq => hfirst heq.symm, hkey⟩
    rw [h.get_of_notMem habsent]
    simp [hfirst, eq_comm]

/-! ## Runs -/

variable {start : KeyedSet → Prop} {allowed : KeyedSet → KeyedSet → Prop}

theorem Built.exists_keys_eq (h : Built s) (hscalar : s.kind.isScalar = true) :
    ∃ key, s.keys = [key] := by
  rw [← List.length_eq_one_iff, length_keys]
  exact h.scalarShaped hscalar

/-- The first key of a scalar-typed set is that of a set of the same kind from which the run started. -/
theorem ReachableBy.exists_origin (h : ReachableBy start allowed s) (hscalar : s.kind.isScalar = true) :
    ∃ origin key, Built origin ∧ start origin ∧ origin.kind = s.kind ∧ origin.keys = [key] ∧
      s.keys.head? = some key := by
  induction h with
  | built h hstart =>
      obtain ⟨key, hkeys⟩ := h.exists_keys_eq hscalar
      exact ⟨_, key, h, hstart, rfl, hkeys, by rw [hkeys]; rfl⟩
  | revised _ h ih =>
      obtain ⟨hkind, hkeys⟩ := h.same_keys
      rw [hkind] at hscalar ⊢
      rw [hkeys]
      exact ih hscalar
  | operator operator epsilon _ _ ihs _ =>
      obtain ⟨hkind, hkeys⟩ := same_keys_combine _ hscalar
      rw [Operator.eval, hkind] at hscalar ⊢
      rw [hkeys]
      exact ihs hscalar
  | keyUnion _ _ _ ihs _ =>
      rw [kind_keyUnion] at hscalar ⊢
      obtain ⟨origin, key, hbuilt, hstart, hkind, hkeys, hfirst⟩ := ihs hscalar
      refine ⟨origin, key, hbuilt, hstart, hkind, hkeys, ?_⟩
      rw [keys_keyUnion, List.head?_append, hfirst]
      rfl

/-- From sets that are keyed by their kind, every run keeps the key of the kind in the first place. -/
theorem ReachableBy.head?_keys (h : ReachableBy KeyedByKind allowed s)
    (hscalar : s.kind.isScalar = true) :
    s.keys.head? = some (valueKey s.kind) := by
  obtain ⟨origin, key, -, hstart, hkind, hkeys, hfirst⟩ := h.exists_origin hscalar
  have hvalueKey : origin.keys = [valueKey s.kind] := by
    rw [← hkind] at hscalar ⊢
    exact hstart hscalar
  rw [hkeys, List.cons.injEq] at hvalueKey
  rw [hfirst, hvalueKey.1]

/--
Readings of a scalar-typed set.

- After every run there is a first key, and the value under it is the one that is broadcast.  The key of the
  kind, unless it stands further back, reads that value exactly when it is the first key or the value is
  undefined.
- After every run that starts from sets keyed by their kind, the key of the kind reads it.
-/
theorem keyed_reading (hscalar : s.kind.isScalar = true) :
    (Reachable s → ∃ first rest, s.keys = first :: rest ∧ s.get first = s.scalarValue ∧
      (valueKey s.kind ∉ rest →
        (s.get (valueKey s.kind) = s.scalarValue ↔
          first = valueKey s.kind ∨ s.scalarValue = .undefined))) ∧
    (ReachableBy KeyedByKind (fun _ _ => True) s → s.get (valueKey s.kind) = s.scalarValue) := by
  constructor
  · intro hs
    have hpos : 0 < s.keys.length := by
      rw [length_keys]
      exact hs.size_pos hscalar
    obtain ⟨first, rest, hkeys⟩ := List.exists_cons_of_length_pos hpos
    exact ⟨first, rest, hkeys, hs.wellFormed.get_first hkeys,
      hs.wellFormed.get_eq_scalarValue_iff hkeys⟩
  · intro hs
    obtain ⟨rest, hkeys⟩ := List.head?_eq_some_iff.mp (hs.head?_keys hscalar)
    exact hs.reachable.wellFormed.get_first hkeys

theorem keyed_reading_of_difference :
    let total := (bare "FA" .field).push "FIELD" (.defined 3.0)
    let other := KeyedSet.scalar "FB" (.defined 1.0)
    let difference := (Operator.subtract.eval 0.0 total other).keyUnion other
    let filled := difference.assignAll (.defined 2.0)
    filled.kind.isScalar = true ∧ filled.keys = ["FIELD", ""] ∧
      filled.get fieldKey = filled.scalarValue ∧ filled.scalarValue = .defined 2.0 := by
  intro total other difference filled
  have hentries : KeyedSet.ofEntries "FA" .field [("FIELD", .defined 3.0)] = .ok total := rfl
  have htotal : ReachableBy KeyedByKind (fun _ _ => True) total :=
    .built (.ofEntries hentries) ((keyedByKind_ofEntries_iff hentries).mpr fun _ => rfl)
  have hother : ReachableBy KeyedByKind (fun _ _ => True) other :=
    .built (.scalar "FB" (.defined 1.0)) (keyedByKind_scalar _ _)
  have hfilled : ReachableBy KeyedByKind (fun _ _ => True) filled :=
    .revised (.keyUnion (.operator .subtract 0.0 htotal hother) hother trivial) (.assignAll _)
  exact ⟨rfl, by decide +kernel, (keyed_reading (s := filled) rfl).2 hfilled, by decide +kernel⟩

/-- A field set is accepted under a key of its own, where the key of field sets does not find its value. -/
theorem field_under_other_key :
    let s := (bare "FOPR" .field).push "OTHER" (.defined 4.0)
    KeyedSet.ofEntries "FOPR" .field [("OTHER", .defined 4.0)] = .ok s ∧ Reachable s ∧
      s.get fieldKey = .undefined ∧ s.scalarValue = .defined 4.0 := by
  intro s
  have hs : KeyedSet.ofEntries "FOPR" .field [("OTHER", .defined 4.0)] = .ok s := rfl
  exact ⟨hs, .ofEntries hs, by decide +kernel, by decide +kernel⟩

end KeyedSet

end Quantities
