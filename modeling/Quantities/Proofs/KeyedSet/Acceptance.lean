import Quantities.Proofs.KeyedSet.Equality
import Quantities.Proofs.Stored.KeyedSet

/-!
# Which entries build a set

A set is built from entries with distinct keys, if their number suits its kind.  Of several reasons to
refuse, the first repeated key is reported before the number of entries.  Every constructor and the
decoder judge the entries that they stand for alike.
-/

namespace Quantities

namespace KeyedSet

variable {s t : KeyedSet} {name key : String} {kind : Kind} {entries : List (String × Value)}
  {keys : List String}

/-! ## Repeated keys -/

/-- The key is the first, in order, that occurred before. -/
def FirstRepeat (keys : List String) (key : String) : Prop :=
  ∃ before after, keys = before ++ key :: after ∧ before.Nodup ∧ key ∈ before

theorem FirstRepeat.not_nodup (h : FirstRepeat keys key) : ¬keys.Nodup := by
  obtain ⟨before, after, rfl, -, hkey⟩ := h
  intro hnodup
  exact (List.nodup_append.mp hnodup).2.2 key hkey key List.mem_cons_self rfl

/-- Keys are distinct, or one of them is the first that repeats. -/
theorem nodup_or_firstRepeat (keys : List String) : keys.Nodup ∨ ∃ key, FirstRepeat keys key := by
  induction keys using List.reverseRecOn with
  | nil => exact .inl List.nodup_nil
  | append_singleton keys last ih =>
      rcases ih with hnodup | ⟨key, before, after, rfl, hbefore, hkey⟩
      · by_cases hlast : last ∈ keys
        · exact .inr ⟨last, keys, [], rfl, hnodup, hlast⟩
        · left
          rw [← List.concat_eq_append]
          exact hnodup.concat hlast
      · exact .inr ⟨key, before, after ++ [last], by simp, hbefore, hkey⟩

/-! ## The three answers -/

theorem pushAll_append (s : KeyedSet) (first second : List (String × Value))
    (hfirst : s.pushAll first = .ok t) : s.pushAll (first ++ second) = t.pushAll second := by
  induction first generalizing s with
  | nil =>
      cases hfirst
      rfl
  | cons entry rest ih =>
      obtain ⟨key, value⟩ := entry
      rw [pushAll] at hfirst
      rw [List.cons_append, pushAll]
      by_cases hheld : s.contains key = true
      · rw [if_pos hheld] at hfirst
        cases hfirst
      · rw [if_neg hheld] at hfirst ⊢
        exact ih _ hfirst

theorem ofEntries_of_firstRepeat (kind : Kind) (h : FirstRepeat (entries.map Prod.fst) key) :
    ofEntries name kind entries = .error (.duplicateKey name key) := by
  obtain ⟨before, after, hkeys, hnodup, hkey⟩ := h
  obtain ⟨front, back, rfl, rfl, hback⟩ := List.map_eq_append_iff.mp hkeys
  obtain ⟨⟨named, value⟩, later, rfl, hnamed, -⟩ := List.map_eq_cons_iff.mp hback
  obtain rfl : named = key := hnamed
  have hpushed : (bare name kind).pushAll front = .ok ((bare name kind).extend front) :=
    pushAll_bare hnodup
  have hwell := (wellFormed_bare name kind).pushAll hpushed
  have hheld : ((bare name kind).extend front).contains named = true := by
    rw [hwell.contains_iff, keys_extend]
    simpa using hkey
  rw [ofEntries, pushAll_append _ _ _ hpushed, pushAll, if_pos hheld, name_extend]
  rfl

theorem ofEntries_of_misshapen (hkeys : (entries.map Prod.fst).Nodup) (hscalar : kind.isScalar = true)
    (hlength : entries.length ≠ 1) :
    ofEntries name kind entries = .error (.scalarShape name kind entries.length) := by
  unfold ofEntries
  rw [pushAll_bare hkeys]
  simp [size_extend_bare, hscalar, hlength]

/-! ## The verdict on entries -/

/-- The answer to a request for a set is decided by the keys and the number of its entries. -/
structure IsVerdict (name : String) (kind : Kind) (entries : List (String × Value))
    (answer : Except SetupError KeyedSet) : Prop where
  repeated_iff : (∃ set key, answer = .error (.duplicateKey set key)) ↔ ¬(entries.map Prod.fst).Nodup
  duplicateKey_iff : ∀ set key, answer = .error (.duplicateKey set key) ↔
    set = name ∧ FirstRepeat (entries.map Prod.fst) key
  scalarShape_iff : ∀ set asked size, answer = .error (.scalarShape set asked size) ↔
    (set = name ∧ asked = kind ∧ size = entries.length) ∧
      (entries.map Prod.fst).Nodup ∧ kind.isScalar = true ∧ entries.length ≠ 1
  ok_iff : (∃ s, answer = .ok s) ↔
    (entries.map Prod.fst).Nodup ∧ (kind.isScalar = true → entries.length = 1)
  /-- The set shows its entries in order, each value checked. -/
  shows : ∀ s, answer = .ok s → s.name = name ∧ s.kind = kind ∧
    s.entries.toList = entries.map (fun entry => (entry.1, entry.2.normalized)) ∧
    ∀ key i, s.position? key = some i ↔ (entries.map Prod.fst)[i]? = some key

/-- Every list of entries meets one of the three answers. -/
theorem ofEntries_cases (name : String) (kind : Kind) (entries : List (String × Value)) :
    (∃ key, FirstRepeat (entries.map Prod.fst) key ∧
      ofEntries name kind entries = .error (.duplicateKey name key)) ∨
    ((entries.map Prod.fst).Nodup ∧ kind.isScalar = true ∧ entries.length ≠ 1 ∧
      ofEntries name kind entries = .error (.scalarShape name kind entries.length)) ∨
    ((entries.map Prod.fst).Nodup ∧ (kind.isScalar = true → entries.length = 1) ∧
      ofEntries name kind entries = .ok ((bare name kind).extend entries)) := by
  rcases nodup_or_firstRepeat (entries.map Prod.fst) with hkeys | ⟨key, hkey⟩
  · by_cases hshape : kind.isScalar = true → entries.length = 1
    · exact .inr (.inr ⟨hkeys, hshape, ofEntries_eq_ok hkeys hshape⟩)
    · obtain ⟨hscalar, hlength⟩ := Classical.not_imp.mp hshape
      exact .inr (.inl ⟨hkeys, hscalar, hlength, ofEntries_of_misshapen hkeys hscalar hlength⟩)
  · exact .inl ⟨key, hkey, ofEntries_of_firstRepeat kind hkey⟩

theorem isVerdict_ofEntries (name : String) (kind : Kind) (entries : List (String × Value)) :
    IsVerdict name kind entries (ofEntries name kind entries) := by
  obtain ⟨first, hfirst, hanswer⟩ | ⟨hkeys, hscalar, hlength, hanswer⟩ | ⟨hkeys, hshape, hanswer⟩ :=
    ofEntries_cases name kind entries
  · have hkeys := hfirst.not_nodup
    constructor
    case duplicateKey_iff =>
      intro set key
      constructor
      · intro h
        rw [hanswer] at h
        cases h
        exact ⟨rfl, hfirst⟩
      · rintro ⟨rfl, hkey⟩
        exact ofEntries_of_firstRepeat kind hkey
    all_goals simp [hanswer, hkeys]
  · constructor
    case duplicateKey_iff =>
      intro set key
      rw [hanswer]
      exact iff_of_false (by simp) fun h => h.2.not_nodup hkeys
    all_goals simp [hanswer, hkeys, hscalar, hlength, eq_comm]
  · constructor
    case duplicateKey_iff =>
      intro set key
      rw [hanswer]
      exact iff_of_false (by simp) fun h => h.2.not_nodup hkeys
    case shows =>
      intro s hs
      rw [hanswer] at hs
      cases hs
      refine ⟨name_extend _ _, kind_extend _ _, entries_extend_bare name kind entries, fun key i => ?_⟩
      rw [(wellFormed_ofEntries hanswer).position?_eq_some_iff, keys_extend, keys_bare,
        List.nil_append]
    all_goals simp_all

/-! ## Stored entries -/

/-- The text holds the record of a name, a kind and entries, and nothing else but blanks. -/
def Spells (text name : String) (kind : Kind) (entries : List (String × Value)) : Prop :=
  ∃ tree rest, JsonReader.read text.toList = some (tree, rest) ∧
    JsonReader.skipSpace rest = [] ∧ partsOfTree? tree = some (name, kind, entries)

/-- The decoder answers as the constructor does for the entries that the text spells. -/
theorem ofText_of_spells {text : String} (h : Spells text name kind entries) :
    ofText text = (ofEntries name kind entries).mapError .setup := by
  obtain ⟨tree, rest, hread, hblank, hparts⟩ := h
  rw [ofText, Stored.readWith, hread]
  simp only [ofTree, hparts]
  cases ofEntries name kind entries with
  | error e => rfl
  | ok s => simp [hblank, Except.mapError]

/-- All entries can be spelled, whether or not they build a set. -/
theorem exists_spells (name : String) (kind : Kind) (entries : List (String × Value)) :
    ∃ text, Spells text name kind (entries.map fun entry => (entry.1, entry.2.normalized)) := by
  let s := (bare name kind).extend entries
  have hread : JsonReader.read s.toText.toList = some (s.toTree, []) := by
    rw [toText, JsonTree.text, String.toList_ofList, JsonReader.read_write (isNormal_toTree s)]
  have hparts : partsOfTree? s.toTree =
      some (name, kind, entries.map fun entry => (entry.1, entry.2.normalized)) := by
    rw [partsOfTree?_toTree, name_extend, kind_extend, entries_extend_bare, List.map_map]
    simp [Function.comp_def, bare]
  exact ⟨s.toText, s.toTree, [], hread, rfl, hparts⟩

/-! ## Entries of a set -/

/-- A set that is built again from its entries is equal to it. -/
theorem Coherent.rebuilt_beq (h : s.Coherent) (hshape : s.ScalarShaped) :
    (s.rebuilt == s) = true := by
  have hindex : s.rebuilt.index.Equiv s.index :=
    Std.TreeMap.Equiv.of_forall_constGet?_eq (h.position?_rebuilt hshape)
  have hnormal : ∀ value ∈ s.values, value.IsNormal := by
    intro value hvalue
    cases value with
    | undefined => trivial
    | defined x => exact h.isFinite x hvalue
  have hvalues : (s.values == s.values) = true :=
    (Value.beq_list_iff_sameNumber hnormal hnormal).mpr (Value.forall₂_sameNumber_iff.mpr rfl)
  rw [beq_eq_true_iff, h.keys_rebuilt, h.values_rebuilt]
  exact ⟨name_extend _ _, kind_extend _ _, rfl, hvalues, hindex.beq⟩

/--
Every way to build a set gives the same verdict on the entries that it stands for, and the entries of a
set build an equal one.
-/
theorem construction_exact (name : String) (kind : Kind) (entries : List (String × Value))
    (keys : List String) (value : Value) :
    IsVerdict name kind entries (ofEntries name kind entries) ∧
    IsVerdict name kind (keys.map fun key => (key, .undefined)) (ofKeys name kind keys) ∧
    IsVerdict name .well (keys.map fun key => (key, value)) (wells name keys value) ∧
    IsVerdict name .group (keys.map fun key => (key, value)) (groups name keys value) ∧
    (∀ text, Spells text name kind entries → ∃ answer,
      IsVerdict name kind entries answer ∧ ofText text = answer.mapError .setup) ∧
    (∃ text, Spells text name kind (entries.map fun entry => (entry.1, entry.2.normalized))) ∧
    (∀ s : KeyedSet, s.Coherent → s.ScalarShaped → ∃ t,
      ofEntries s.name s.kind s.entries.toList = .ok t ∧ t.values = s.values ∧ (t == s) = true) := by
  refine ⟨isVerdict_ofEntries name kind entries, isVerdict_ofEntries name kind _,
    isVerdict_ofEntries name .well _, isVerdict_ofEntries name .group _, fun text htext => ?_,
    exists_spells name kind entries, fun s hs hshape => ?_⟩
  · exact ⟨_, isVerdict_ofEntries name kind entries, ofText_of_spells htext⟩
  · exact ⟨s.rebuilt, hs.ofEntries_entries hshape, hs.values_rebuilt, hs.rebuilt_beq hshape⟩

theorem construction_exact_of_repeats :
    let repeated := [("A", Value.undefined), ("B", .defined 1.0), ("B", .undefined), ("A", .undefined)]
    let s := ((bare "WA" .well).push "P1" (.defined (-0.0))).push "P2" .undefined
    ofEntries "FU" .scalar repeated = .error (.duplicateKey "FU" "B") ∧
    (∃ text, ofText text = .error (.setup (.scalarShape "FU" .scalar 2))) ∧
    s.Coherent ∧ s.ScalarShaped ∧
      ∃ t, ofEntries s.name s.kind s.entries.toList = .ok t ∧ (t == s) = true := by
  intro repeated s
  have hrepeat : FirstRepeat (repeated.map Prod.fst) "B" :=
    ⟨["A", "B"], ["A"], rfl, by decide, by decide⟩
  have hverdict := (construction_exact "FU" .scalar repeated [] .undefined).1
  obtain ⟨-, -, -, -, hdecoded, ⟨text, htext⟩, hrebuilt⟩ :=
    construction_exact "FU" .scalar [("A", .undefined), ("B", .undefined)] [] .undefined
  have hs : s.Coherent := (((wellFormed_bare _ _).push (by simp) _).push (by simp) _).coherent
  have hscalar : s.ScalarShaped := fun hkind => by cases hkind
  obtain ⟨t, ht, -, hequal⟩ := hrebuilt s hs hscalar
  refine ⟨(hverdict.duplicateKey_iff _ _).mpr ⟨rfl, hrepeat⟩, ⟨text, ?_⟩, hs, hscalar, t, ht, hequal⟩
  obtain ⟨answer, hanswer, hread⟩ := hdecoded text htext
  have hshape : answer = .error (.scalarShape "FU" .scalar 2) :=
    (hanswer.scalarShape_iff _ _ _).mpr ⟨⟨rfl, rfl, rfl⟩, by decide, rfl, by decide⟩
  rw [hread, hshape]
  rfl

end KeyedSet

end Quantities
