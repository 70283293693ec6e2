import Quantities.Proofs.Registry.WriteOnce

/-!
# Loading the catalogue

The catalogue is loaded into a registry in which anything may be registered already.  What comes before
the first function whose place is taken is added, that function is reported, and nothing else changes.
-/

namespace Quantities

def SetFunction.slot (f : SetFunction) : Family × String :=
  (f.family, f.name)

namespace Registry

variable {r : Registry} {f : SetFunction} {functions : List SetFunction} {family : Family}
  {name : String}

def insertAll (r : Registry) (functions : List SetFunction) : Registry :=
  functions.foldl insert r

/-- Functions that can be registered one after the other: each has a valid name, and a place that neither
the registry nor another one of them takes. -/
structure Fresh (r : Registry) (functions : List SetFunction) : Prop where
  valid : ∀ f ∈ functions, isValidName f.name = true
  distinct : (functions.map SetFunction.slot).Nodup
  free : ∀ f ∈ functions, r.contains f.family f.name = false

structure Adds (r : Registry) (added : List SetFunction) (r' : Registry) : Prop where
  get?_eq : ∀ family name, r'.get? family name =
    (r.get? family name).or (added.find? fun f => f.slot = (family, name))
  size_eq : r'.size = r.size + added.length

theorem Adds.kept {added : List SetFunction} {r' : Registry} (h : Adds r added r')
    (hf : r.get? family name = some f) : r'.get? family name = some f := by
  rw [h.get?_eq, hf]
  rfl

theorem contains_insert (r : Registry) (f : SetFunction) (family : Family) (name : String) :
    (r.insert f).contains family name =
      (decide (f.slot = (family, name)) || r.contains family name) := by
  rw [contains_eq_isSome_get?, contains_eq_isSome_get?, get?_insert]
  by_cases hplace : f.family = family ∧ f.name = name
  · simp [SetFunction.slot, hplace]
  · simp [SetFunction.slot, hplace]

/-! ## Functions in free places -/

theorem register_of_free (hvalid : isValidName f.name = true)
    (hfree : r.contains f.family f.name = false) : r.register f = .ok (r.insert f) := by
  simp [register, hvalid, hfree]

/-- The first function takes its own place and no other. -/
theorem Fresh.tail (h : Fresh r (f :: functions)) : Fresh (r.insert f) functions where
  valid g hg := h.valid g (List.mem_cons_of_mem f hg)
  distinct := (List.nodup_cons.mp h.distinct).2
  free g hg := by
    have hother : f.slot ≠ g.slot := by
      intro heq
      refine (List.nodup_cons.mp h.distinct).1 ?_
      rw [heq]
      exact List.mem_map_of_mem hg
    rw [contains_insert, h.free g (List.mem_cons_of_mem f hg)]
    simpa [SetFunction.slot] using hother

/-- Fresh functions are all registered, and registration goes on after them. -/
theorem Fresh.registerAll_append (h : Fresh r functions) (more : List SetFunction) :
    r.registerAll (functions ++ more) = (r.insertAll functions).registerAll more := by
  induction functions generalizing r with
  | nil => rfl
  | cons f rest ih =>
      have hfirst : r.register f = .ok (r.insert f) :=
        register_of_free (h.valid f List.mem_cons_self) (h.free f List.mem_cons_self)
      rw [List.cons_append, registerAll, hfirst]
      exact ih h.tail

/-- Each fresh function is found in its place, and every other place is as before. -/
theorem Fresh.adds (h : Fresh r functions) : Adds r functions (r.insertAll functions) := by
  induction functions generalizing r with
  | nil =>
      constructor
      · simp [insertAll]
      · rfl
  | cons f rest ih =>
      have hfree := h.free f List.mem_cons_self
      obtain ⟨hget, hsize⟩ := ih h.tail
      constructor
      · intro family name
        rw [insertAll, List.foldl_cons, ← insertAll, hget, get?_insert]
        by_cases hplace : f.family = family ∧ f.name = name
        · obtain ⟨rfl, rfl⟩ := hplace
          rw [contains_eq_isSome_get?, Option.isSome_eq_false_iff, Option.isNone_iff_eq_none] at hfree
          simp [SetFunction.slot, hfree]
        · simp [SetFunction.slot, hplace]
      · rw [insertAll, List.foldl_cons, ← insertAll, hsize, size_insert hfree, List.length_cons]
        omega

/-- A function whose place is taken ends the registration. -/
theorem registerAll_of_taken (hvalid : isValidName f.name = true)
    (htaken : r.contains f.family f.name = true) (more : List SetFunction) :
    r.registerAll (f :: more) = (r, some (.duplicateFunction f.family f.name)) := by
  simp [registerAll, register, hvalid, htaken]

/-! ## The catalogue -/

theorem isValidName_of_mem_catalogue : ∀ f ∈ catalogue, isValidName f.name = true := by
  decide +kernel

theorem nodup_slots_catalogue : (catalogue.map SetFunction.slot).Nodup := by
  decide +kernel

theorem fresh_of_catalogue_eq {before after : List SetFunction}
    (hcatalogue : catalogue = before ++ after)
    (hfree : ∀ g ∈ before, r.contains g.family g.name = false) : Fresh r before where
  valid g hg := isValidName_of_mem_catalogue g (by simp [hcatalogue, hg])
  distinct := by
    have hslots := nodup_slots_catalogue
    rw [hcatalogue, List.map_append] at hslots
    exact (List.nodup_append.mp hslots).1
  free := hfree

/-- Loading ends at the first function of the catalogue whose place is taken, if there is one. -/
theorem loadCatalogue_of_taken {before after : List SetFunction}
    (hcatalogue : catalogue = before ++ f :: after)
    (hfree : ∀ g ∈ before, r.contains g.family g.name = false)
    (htaken : r.contains f.family f.name = true) :
    r.loadCatalogue = (r.insertAll before, some (.duplicateFunction f.family f.name)) := by
  have hfresh := fresh_of_catalogue_eq hcatalogue hfree
  have hvalid : isValidName f.name = true :=
    isValidName_of_mem_catalogue f (by simp [hcatalogue])
  have hkept : (r.insertAll before).contains f.family f.name = true := by
    rw [contains_eq_isSome_get?, Option.isSome_iff_exists] at htaken ⊢
    obtain ⟨held, hheld⟩ := htaken
    exact ⟨held, hfresh.adds.kept hheld⟩
  rw [loadCatalogue, hcatalogue, hfresh.registerAll_append, registerAll_of_taken hvalid hkept]

theorem fresh_catalogue (hfree : ∀ f ∈ catalogue, r.contains f.family f.name = false) :
    Fresh r catalogue :=
  fresh_of_catalogue_eq (List.append_nil catalogue).symm hfree

theorem loadCatalogue_of_free (hfree : ∀ f ∈ catalogue, r.contains f.family f.name = false) :
    r.loadCatalogue = (r.insertAll catalogue, none) := by
  have hload := (fresh_catalogue hfree).registerAll_append []
  rwa [List.append_nil] at hload

/-- Every function finds its place free, or one of them is the first that does not. -/
theorem free_or_first_taken (r : Registry) (functions : List SetFunction) :
    (∀ f ∈ functions, r.contains f.family f.name = false) ∨
    ∃ before f after, functions = before ++ f :: after ∧
      (∀ g ∈ before, r.contains g.family g.name = false) ∧ r.contains f.family f.name = true := by
  cases hfind : functions.find? fun f => r.contains f.family f.name with
  | none =>
      left
      simpa using hfind
  | some f =>
      right
      obtain ⟨htaken, before, after, hsplit, hfree⟩ := List.find?_eq_some_iff_append.mp hfind
      exact ⟨before, f, after, hsplit, by simpa using hfree, htaken⟩

theorem loadCatalogue_cases (r : Registry) :
    ((∀ f ∈ catalogue, r.contains f.family f.name = false) ∧ r.loadCatalogue.2 = none ∧
      Adds r catalogue r.loadCatalogue.1) ∨
    ∃ before f after, catalogue = before ++ f :: after ∧
      (∀ g ∈ before, r.contains g.family g.name = false) ∧ r.contains f.family f.name = true ∧
      r.loadCatalogue.2 = some (.duplicateFunction f.family f.name) ∧
      Adds r before r.loadCatalogue.1 := by
  rcases free_or_first_taken r catalogue with hfree | ⟨before, f, after, hsplit, hfree, htaken⟩
  · left
    rw [loadCatalogue_of_free hfree]
    exact ⟨hfree, rfl, (fresh_catalogue hfree).adds⟩
  · right
    rw [loadCatalogue_of_taken hsplit hfree htaken]
    exact ⟨before, f, after, hsplit, hfree, htaken, rfl, (fresh_of_catalogue_eq hsplit hfree).adds⟩

theorem catalogue_eq_cons : catalogue = .scalar Reduction.sum.toFunction :: catalogue.tail :=
  rfl

theorem loadCatalogue_of_sum_taken (h : r.contains .scalar "SUM" = true) :
    r.loadCatalogue = (r, some (.duplicateFunction .scalar "SUM")) := by
  have hsplit : catalogue = [] ++ .scalar Reduction.sum.toFunction :: catalogue.tail :=
    catalogue_eq_cons
  exact loadCatalogue_of_taken hsplit (by simp) h

/-- After a load the first place of the catalogue is taken, whether or not it was before. -/
theorem contains_sum_loadCatalogue (r : Registry) :
    r.loadCatalogue.1.contains .scalar "SUM" = true := by
  have hadded : ∀ rest, Adds r (.scalar Reduction.sum.toFunction :: rest) r.loadCatalogue.1 →
      r.loadCatalogue.1.contains .scalar "SUM" = true := by
    intro rest hadds
    rw [contains_eq_isSome_get?, hadds.get?_eq, List.find?_cons_of_pos (by decide)]
    simp
  rcases r.loadCatalogue_cases with ⟨-, -, hadds⟩ | ⟨before, f, after, hsplit, -, htaken, -, hadds⟩
  · rw [catalogue_eq_cons] at hadds
    exact hadded _ hadds
  · rw [catalogue_eq_cons] at hsplit
    cases before with
    | nil =>
        obtain ⟨rfl, -⟩ := List.cons.inj hsplit
        rw [loadCatalogue_of_sum_taken htaken]
        exact htaken
    | cons g earlier =>
        obtain ⟨rfl, -⟩ := List.cons.inj hsplit
        exact hadded earlier hadds

/-- A second load is refused at once, whatever the first one did. -/
theorem loadCatalogue_again (r : Registry) : r.loadCatalogue.1.loadCatalogue =
    (r.loadCatalogue.1, some (.duplicateFunction .scalar "SUM")) :=
  loadCatalogue_of_sum_taken r.contains_sum_loadCatalogue

structure LoadsUpToClash (r : Registry) : Prop where
  succeeds_iff : r.loadCatalogue.2 = none ↔
    ∀ f ∈ catalogue, r.contains f.family f.name = false
  loaded : r.loadCatalogue.2 = none → Adds r catalogue r.loadCatalogue.1
  /-- A failure names the first function whose place is taken, and those before it are added. -/
  clash : ∀ e, r.loadCatalogue.2 = some e → ∃ before f after, catalogue = before ++ f :: after ∧
    (∀ g ∈ before, r.contains g.family g.name = false) ∧ r.contains f.family f.name = true ∧
    e = .duplicateFunction f.family f.name ∧ Adds r before r.loadCatalogue.1
  kept : ∀ family name f, r.get? family name = some f →
    r.loadCatalogue.1.get? family name = some f
  /-- With the first place of the catalogue taken nothing is added. -/
  sum_taken : r.contains .scalar "SUM" = true →
    r.loadCatalogue = (r, some (.duplicateFunction .scalar "SUM"))
  /-- A second load ends so, whatever the first one did. -/
  again : r.loadCatalogue.1.loadCatalogue =
    (r.loadCatalogue.1, some (.duplicateFunction .scalar "SUM"))

/--
Loading adds the catalogue up to the first function whose family and name are taken, and all of it if
there is none.  The catalogue has these functions in this order.
-/
theorem catalogue_loads (r : Registry) :
    catalogue.map SetFunction.slot =
      ["SUM", "AVEA", "AVEG", "AVEH", "MIN", "MAX", "NORM1", "NORM2", "NORMI", "PROD"].map
        (Family.scalar, ·) ++
      ["ABS", "DEF", "EXP", "IDV", "LN", "LOG", "NINT", "SORTA", "SORTD", "UNDEF", "RANDN",
        "RANDU"].map (Family.unary, ·) ++
      ["EQ", "NE", "LE", "GE", "POW", "LT", "GT", "ADD", "MUL", "SUB", "DIV", "UADD", "UMUL",
        "UMAX", "UMIN"].map (Family.binary, ·) ∧
    r.LoadsUpToClash := by
  refine ⟨rfl, ?_⟩
  rcases r.loadCatalogue_cases with ⟨hfree, hnone, hadds⟩ |
    ⟨before, f, after, hsplit, hfree, htaken, hsome, hadds⟩
  · constructor
    case succeeds_iff => exact iff_of_true hnone hfree
    case loaded => exact fun _ => hadds
    case clash => simp [hnone]
    case kept => exact fun family name f hf => hadds.kept hf
    case sum_taken => exact loadCatalogue_of_sum_taken
    case again => exact r.loadCatalogue_again
  · have hmem : f ∈ catalogue := by simp [hsplit]
    constructor
    case succeeds_iff =>
      refine iff_of_false (by simp [hsome]) fun hall => ?_
      simp [hall f hmem] at htaken
    case loaded => simp [hsome]
    case clash =>
      intro e he
      rw [hsome] at he
      cases he
      exact ⟨before, f, after, hsplit, hfree, htaken, rfl, hadds⟩
    case kept => exact fun family name f hf => hadds.kept hf
    case sum_taken => exact loadCatalogue_of_sum_taken
    case again => exact r.loadCatalogue_again

theorem catalogue_loads_beside_minimum :
    let own : SetFunction := .scalar ⟨"MIN", fun _ => .undefined⟩
    let r := empty.run [.register own]
    r.LoadsUpToClash ∧ r.loadCatalogue.2 = some (.duplicateFunction .scalar "MIN") ∧
      r.loadCatalogue.1.size = 5 ∧ r.loadCatalogue.1.get? .scalar "MIN" = some own := by
  intro own r
  have hloads := (catalogue_loads r).2
  have hanswer : r.loadCatalogue.2 = some (.duplicateFunction .scalar "MIN") := by decide +kernel
  have hsize : r.loadCatalogue.1.size = 5 := by decide +kernel
  have hregister : empty.register own = .ok (empty.insert own) :=
    register_of_free (by decide +kernel) rfl
  have hown : r.get? .scalar "MIN" = some own := by
    simp only [r, run, perform, hregister]
    rw [get?_insert, if_pos ⟨rfl, rfl⟩]
  exact ⟨hloads, hanswer, hsize, hloads.kept .scalar "MIN" own hown⟩

end Registry

end Quantities
