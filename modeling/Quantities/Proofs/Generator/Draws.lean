import Mathlib
import Quantities.Draw
import Quantities.Proofs.Generator.Sampling
import Quantities.Proofs.KeyedSet.Reachable

/-!
# Draws over the keys of a set

A random function draws once for every key, in key order, and looks at nothing else of its set.  The numbers
and the generator that is left are therefore those of so many draws in a row, and a set that is cut in two
is drawn for in two goes.
-/

namespace Quantities

namespace Generator

theorem length_take (count : Nat) (g : Generator) : (take count g).1.length = count := by
  induction count generalizing g with
  | zero => rfl
  | succ count ih => exact congrArg (· + 1) (ih g.next.2)

end Generator

namespace Draw

open Binary64 KeyedSet

/-! ## Draws in a row -/

def numbers (draw : Draw) : Nat → Generator → List Float × Generator
  | 0, g => ([], g)
  | count + 1, g =>
      let (x, g) := draw.number g
      let (rest, g) := numbers draw count g
      (x :: rest, g)

theorem numbers_add (draw : Draw) (m n : Nat) (g : Generator) :
    draw.numbers (m + n) g =
      ((draw.numbers m g).1 ++ (draw.numbers n (draw.numbers m g).2).1,
        (draw.numbers n (draw.numbers m g).2).2) := by
  induction m generalizing g with
  | zero => rw [Nat.zero_add]; rfl
  | succ m ih =>
      rw [Nat.succ_add]
      simp only [numbers, ih, List.cons_append]

/-- Every uniform draw takes one word. -/
theorem numbers_uniform (count : Nat) (g : Generator) :
    uniform.numbers count g =
      ((g.take count).1.map Generator.unitInterval, (g.take count).2) := by
  induction count generalizing g with
  | zero => rfl
  | succ count ih =>
      have hnumber : uniform.number g = (Generator.unitInterval g.next.1, g.next.2) := rfl
      simp only [numbers, Generator.take, hnumber, ih, List.map_cons]

theorem isFinite_number (draw : Draw) (g : Generator) : (draw.number g).1.isFinite = true := by
  cases draw with
  | normal => exact Generator.isFinite_normal g
  | uniform => exact (Generator.unitInterval_exact g.next.1).2.1

/-! ## Draws for a set -/

variable {s t : KeyedSet}

/-- The values of a set play no part in what is drawn for it. -/
theorem threadValues_draw (draw : Draw) (values : List Value) (g : Generator) :
    threadValues (fun g _ => let (x, g) := draw.number g; (Value.ofFloat x, g)) g values =
      ((draw.numbers values.length g).1.map .defined, (draw.numbers values.length g).2) := by
  induction values generalizing g with
  | nil => rfl
  | cons value rest ih =>
      have hfinite := draw.isFinite_number g
      have hvalue : (Value.ofFloat (draw.number g).1).normalized = .defined (draw.number g).1 := by
        rw [Value.normalized_of_isNormal (Value.isNormal_ofFloat _), Value.ofFloat, if_pos hfinite]
      simp only [threadValues, List.length_cons, numbers, ih, hvalue, List.map_cons]

theorem eval_eq (hs : s.WellFormed) (draw : Draw) (g : Generator) :
    (draw.eval g s).1.values = (draw.numbers s.size g).1.map .defined ∧
      (draw.eval g s).2 = (draw.numbers s.size g).2 := by
  have hrun := draw.threadValues_draw s.values g
  rw [hs.length_values, length_keys] at hrun
  constructor
  · rw [eval, values_mapThreaded, hrun]
  · exact congrArg Prod.snd hrun

theorem eval_eq_of_size_eq (hs : s.WellFormed) (ht : t.WellFormed) (hsize : t.size = s.size)
    (draw : Draw) (g : Generator) :
    (draw.eval g t).1.values = (draw.eval g s).1.values ∧ (draw.eval g t).2 = (draw.eval g s).2 := by
  obtain ⟨hsvalues, hslast⟩ := eval_eq hs draw g
  obtain ⟨htvalues, htlast⟩ := eval_eq ht draw g
  rw [hsvalues, htvalues, hslast, htlast, hsize]
  exact ⟨rfl, rfl⟩

/-- A set is drawn for in two goes, the second one with the generator that the first one leaves. -/
theorem eval_eq_of_keys_eq_append {whole first second : KeyedSet} (hwhole : whole.WellFormed)
    (hfirst : first.WellFormed) (hsecond : second.WellFormed)
    (hkeys : whole.keys = first.keys ++ second.keys) (draw : Draw) (g : Generator) :
    (draw.eval g whole).1.values =
        (draw.eval g first).1.values ++ (draw.eval (draw.eval g first).2 second).1.values ∧
      (draw.eval g whole).2 = (draw.eval (draw.eval g first).2 second).2 := by
  have hsize : whole.size = first.size + second.size := by
    rw [← length_keys, hkeys, List.length_append, length_keys, length_keys]
  obtain ⟨hvalues, hlast⟩ := eval_eq hwhole draw g
  obtain ⟨hvalues₁, hlast₁⟩ := eval_eq hfirst draw g
  obtain ⟨hvalues₂, hlast₂⟩ := eval_eq hsecond draw (draw.eval g first).2
  rw [hvalues₂, hlast₂, hvalues, hlast, hvalues₁, hlast₁, hsize, numbers_add, List.map_append]
  exact ⟨rfl, rfl⟩

/--
Draws are accounted for.

- The uniform function takes one word for each key, in key order, and nothing more; the number of a key
  counts the top 53 bits of its word exactly and lies in `[0, 1)`.
- Numbers and generator depend on how many keys there are and on nothing else of a set.
- Drawing for a set is drawing for the first part of its keys and then, with the generator that this
  leaves, for the rest.
-/
theorem draws_accounted :
    (∀ g s, Reachable s →
      (uniform.eval g s).1.keys = s.keys ∧
      (Generator.take s.size g).1.length = s.size ∧
      (uniform.eval g s).2 = (Generator.take s.size g).2 ∧
      (uniform.eval g s).1.values =
        (Generator.take s.size g).1.map fun word => .defined (Generator.unitInterval word)) ∧
    (∀ word, toRat (Generator.unitInterval word) = (word >>> 11).toNat * 2 ^ (-53 : ℤ) ∧
      (Generator.unitInterval word).isFinite = true ∧
      0.0 ≤ Generator.unitInterval word ∧ Generator.unitInterval word < 1.0) ∧
    (∀ (draw : Draw) g s t, Reachable s → Reachable t → t.size = s.size →
      (draw.eval g t).1.values = (draw.eval g s).1.values ∧
      (draw.eval g t).2 = (draw.eval g s).2) ∧
    ∀ (draw : Draw) g whole first second, Reachable whole → Reachable first → Reachable second →
      whole.keys = first.keys ++ second.keys →
      (draw.eval g whole).1.values =
        (draw.eval g first).1.values ++ (draw.eval (draw.eval g first).2 second).1.values ∧
      (draw.eval g whole).2 = (draw.eval (draw.eval g first).2 second).2 := by
  refine ⟨fun g s hs => ?_, Generator.unitInterval_exact, fun draw g s t hs ht hsize => ?_,
    fun draw g whole first second hwhole hfirst hsecond hkeys => ?_⟩
  · obtain ⟨hvalues, hlast⟩ := eval_eq hs.wellFormed uniform g
    rw [hvalues, hlast, numbers_uniform, List.map_map]
    exact ⟨rfl, Generator.length_take _ g, rfl, rfl⟩
  · exact eval_eq_of_size_eq hs.wellFormed ht.wellFormed hsize draw g
  · exact eval_eq_of_keys_eq_append hwhole.wellFormed hfirst.wellFormed hsecond.wellFormed hkeys draw g

theorem draws_accounted_of_wells :
    let wells := (((bare "WA" .well).push "P1" (.defined 3.0)).push "P2" .undefined).push "P3"
      (.defined (-0.0))
    let front := (bare "WB" .well).push "P1" .undefined
    let rest := ((bare "GA" .group).push "P2" (.defined 1e300)).push "P3" .undefined
    let others := (((bare "SA" .segment).push "3" .undefined).push "7" .undefined).push "1"
      (.defined 2.0)
    let g := Generator.seeded 7
    Reachable wells ∧ Reachable front ∧ Reachable rest ∧ Reachable others ∧
      wells.keys = front.keys ++ rest.keys ∧ others.size = wells.size ∧
      (uniform.eval g wells).2 = g.next.2.next.2.next.2 ∧
      (uniform.eval g wells).1.values =
        [g.next.1, g.next.2.next.1, g.next.2.next.2.next.1].map
          (fun word => .defined (Generator.unitInterval word)) ∧
      (normal.eval g others).1.values = (normal.eval g wells).1.values ∧
      (normal.eval g wells).2 = (normal.eval (normal.eval g front).2 rest).2 := by
  intro wells front rest others g
  have hwells : KeyedSet.ofEntries "WA" .well
      [("P1", .defined 3.0), ("P2", .undefined), ("P3", .defined (-0.0))] = .ok wells := rfl
  have hfront : KeyedSet.ofEntries "WB" .well [("P1", .undefined)] = .ok front := rfl
  have hrest : KeyedSet.ofEntries "GA" .group [("P2", .defined 1e300), ("P3", .undefined)] =
      .ok rest := rfl
  have hothers : KeyedSet.ofEntries "SA" .segment
      [("3", .undefined), ("7", .undefined), ("1", .defined 2.0)] = .ok others := rfl
  obtain ⟨huniform, -, hsize, hsplit⟩ := draws_accounted
  obtain ⟨-, -, hlast, hvalues⟩ := huniform g wells (.ofEntries hwells)
  exact ⟨.ofEntries hwells, .ofEntries hfront, .ofEntries hrest, .ofEntries hothers, rfl, rfl, hlast,
    hvalues, (hsize normal g wells others (.ofEntries hwells) (.ofEntries hothers) rfl).1,
    (hsplit normal g wells front rest (.ofEntries hwells) (.ofEntries hfront) (.ofEntries hrest)
      rfl).2⟩

end Draw

end Quantities
