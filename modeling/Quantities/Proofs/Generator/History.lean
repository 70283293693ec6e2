import Mathlib.Data.List.Basic
import Quantities.Registry.Catalogue
import Quantities.Settings

/-!
# Histories of report steps

A run enters report steps and evaluates functions in them, and the generator is all that it carries from
one evaluation to the next.  Reseeding forgets the past of a run, without reseeding the steps leave no trace
in it, and functions that draw nothing leave none in either case.
-/

namespace Quantities

structure Evaluation where
  function : UnaryFunction
  argument : KeyedSet

structure ReportStep where
  number : UInt64
  evaluations : List Evaluation

namespace UnaryFunction

variable {f : UnaryFunction}

theorem eval_of_not_isRandom (h : f.isRandom = false) :
    ∃ body : KeyedSet → KeyedSet, ∀ g s, f.eval g s = (body s, g) := by
  cases hbody : f.body with
  | pure body =>
      refine ⟨body, fun g s => ?_⟩
      rw [eval, hbody]
  | random body =>
      rw [isRandom, flags, hbody] at h
      cases h

end UnaryFunction

namespace Evaluation

/-- Evaluates in order, passing the generator along, and notes every result. -/
def perform : Generator → List Evaluation → List (Evaluation × KeyedSet) × Generator
  | g, [] => ([], g)
  | g, evaluation :: rest =>
      let (result, g) := evaluation.function.eval g evaluation.argument
      let (log, g) := perform g rest
      ((evaluation, result) :: log, g)

theorem perform_append (g : Generator) (first second : List Evaluation) :
    perform g (first ++ second) =
      ((perform g first).1 ++ (perform (perform g first).2 second).1,
        (perform (perform g first).2 second).2) := by
  induction first generalizing g with
  | nil => rfl
  | cons evaluation rest ih => simp only [List.cons_append, perform, ih]

end Evaluation

/-- The second list is the first one with more items, which have a property, anywhere in it. -/
inductive Inserts {α : Type} (p : α → Prop) : List α → List α → Prop where
  | nil : Inserts p [] []
  | keep (x : α) {xs ys : List α} : Inserts p xs ys → Inserts p (x :: xs) (x :: ys)
  | insert (x : α) {xs ys : List α} : p x → Inserts p xs ys → Inserts p xs (x :: ys)

namespace Evaluation

def DrawsNothing (evaluation : Evaluation) : Prop :=
  evaluation.function.isRandom = false

theorem perform_inserts {first second : List Evaluation} (h : Inserts DrawsNothing first second)
    (g : Generator) :
    Inserts (fun entry => DrawsNothing entry.1) (perform g first).1 (perform g second).1 ∧
      (perform g first).2 = (perform g second).2 := by
  induction h generalizing g with
  | nil => exact ⟨.nil, rfl⟩
  | keep evaluation _ ih =>
      obtain ⟨hlog, hlast⟩ := ih (evaluation.function.eval g evaluation.argument).2
      exact ⟨.keep _ hlog, hlast⟩
  | insert evaluation hnothing _ ih =>
      -- The generator passes the inserted evaluation unchanged, so the rest starts from the same one.
      obtain ⟨body, hbody⟩ := UnaryFunction.eval_of_not_isRandom hnothing
      obtain ⟨hlog, hlast⟩ := ih g
      simp only [perform, hbody]
      exact ⟨.insert _ hnothing hlog, hlast⟩

end Evaluation

namespace Settings

open Evaluation

variable (settings : Settings)

/-- Enters the steps of a history in order and performs their evaluations; the log of a run has one part
for each step. -/
def run : Generator → List ReportStep → List (List (Evaluation × KeyedSet)) × Generator
  | g, [] => ([], g)
  | g, step :: rest =>
      let (log, g) := perform (settings.generatorForStep g step.number) step.evaluations
      let (logs, g) := run g rest
      (log :: logs, g)

theorem run_append (g : Generator) (first second : List ReportStep) :
    settings.run g (first ++ second) =
      ((settings.run g first).1 ++ (settings.run (settings.run g first).2 second).1,
        (settings.run (settings.run g first).2 second).2) := by
  induction first generalizing g with
  | nil => rfl
  | cons step rest ih => simp only [List.cons_append, run, ih]

/-- After reseeding, a step is performed by the generator of its seed and number. -/
theorem run_concat_of_reseed (h : settings.reseed = true) (g : Generator) (earlier : List ReportStep)
    (step : ReportStep) :
    settings.run g (earlier ++ [step]) =
      ((settings.run g earlier).1 ++
          [(perform (.seededForStep settings.randomSeed step.number) step.evaluations).1],
        (perform (.seededForStep settings.randomSeed step.number) step.evaluations).2) := by
  have hentered : ∀ running, settings.generatorForStep running step.number =
      .seededForStep settings.randomSeed step.number := by
    intro running
    rw [generatorForStep, if_pos h]
  rw [run_append]
  simp only [run, hentered]

/-- Without reseeding, the boundaries between the steps do not show. -/
theorem run_of_not_reseed (h : settings.reseed = false) (g : Generator) (history : List ReportStep) :
    (settings.run g history).1.flatten = (perform g (history.flatMap (·.evaluations))).1 ∧
      (settings.run g history).2 = (perform g (history.flatMap (·.evaluations))).2 := by
  induction history generalizing g with
  | nil => exact ⟨rfl, rfl⟩
  | cons step rest ih =>
      have hentered : settings.generatorForStep g step.number = g := by
        rw [generatorForStep, if_neg (by simp [h])]
      obtain ⟨hlogs, hlast⟩ := ih (perform g step.evaluations).2
      simp only [run, hentered, List.flatMap_cons, perform_append, List.flatten_cons, hlogs, hlast]
      exact ⟨trivial, trivial⟩

/-- Evaluations that draw nothing may be added to the steps of a history or left out. -/
theorem run_inserts {history fuller : List ReportStep}
    (h : List.Forall₂ (fun step wider => step.number = wider.number ∧
      Inserts DrawsNothing step.evaluations wider.evaluations) history fuller)
    (g : Generator) :
    List.Forall₂ (Inserts fun entry => DrawsNothing entry.1) (settings.run g history).1
        (settings.run g fuller).1 ∧
      (settings.run g history).2 = (settings.run g fuller).2 := by
  induction h generalizing g with
  | nil => exact ⟨.nil, rfl⟩
  | @cons step wider _ _ hstep _ ih =>
      obtain ⟨hnumber, hinserts⟩ := hstep
      obtain ⟨hlog, hlast⟩ := perform_inserts hinserts (settings.generatorForStep g step.number)
      obtain ⟨hlogs, hend⟩ := ih (perform (settings.generatorForStep g step.number) step.evaluations).2
      simp only [run, ← hnumber, ← hlast]
      exact ⟨.cons hlog hlogs, hend⟩

/--
Histories are reproducible.

- With reseeding, two runs that end by entering the same step under the same seed end with the same log and
  leave the same generator, whatever they did before.
- Without reseeding, a run is one sequence of evaluations that starts from its generator.
- In both cases, evaluations that draw nothing change no other result, and not the generator either.
-/
theorem run_reproducible :
    (∀ settings other : Settings, settings.reseed = true → other.reseed = true →
      settings.randomSeed = other.randomSeed →
      ∀ g running earlier past (step : ReportStep), ∃ log last,
        settings.run g (earlier ++ [step]) = ((settings.run g earlier).1 ++ [log], last) ∧
        other.run running (past ++ [step]) = ((other.run running past).1 ++ [log], last)) ∧
    (∀ settings : Settings, settings.reseed = false → ∀ g history,
      (settings.run g history).1.flatten = (perform g (history.flatMap (·.evaluations))).1 ∧
      (settings.run g history).2 = (perform g (history.flatMap (·.evaluations))).2) ∧
    ∀ (settings : Settings) g history fuller,
      List.Forall₂ (fun step wider => step.number = wider.number ∧
        Inserts DrawsNothing step.evaluations wider.evaluations) history fuller →
      List.Forall₂ (Inserts fun entry => DrawsNothing entry.1) (settings.run g history).1
        (settings.run g fuller).1 ∧
      (settings.run g history).2 = (settings.run g fuller).2 := by
  refine ⟨?_, fun settings h => settings.run_of_not_reseed h, fun settings g _ _ h =>
    settings.run_inserts h g⟩
  intro settings other hsettings hother hseed g running earlier past step
  refine ⟨_, _, settings.run_concat_of_reseed hsettings g earlier step, ?_⟩
  rw [other.run_concat_of_reseed hother running past step, hseed]

theorem run_reproducible_of_draws :
    let reseeding : Settings := { reseed := true, randomSeed := 7 }
    let streaming : Settings := { randomSeed := 7 }
    let rates := (KeyedSet.bare "WA" .well).push "P1" (.defined 3.0)
    let draw : Evaluation := ⟨Draw.uniform.toFunction, rates⟩
    let sort : Evaluation := ⟨Transform.ascending.toFunction, rates⟩
    let g := reseeding.runGenerator
    DrawsNothing sort ∧ ¬DrawsNothing draw ∧
      (∃ log last, reseeding.run g ([⟨1, [draw]⟩] ++ [⟨3, [draw]⟩]) =
          ((reseeding.run g [⟨1, [draw]⟩]).1 ++ [log], last) ∧
        reseeding.run g ([] ++ [⟨3, [draw]⟩]) = ((reseeding.run g []).1 ++ [log], last)) ∧
      (streaming.run g [⟨1, [draw]⟩, ⟨3, [draw]⟩]).1.flatten = (perform g [draw, draw]).1 ∧
      (reseeding.run g [⟨1, [draw, draw]⟩]).2 = (reseeding.run g [⟨1, [draw, sort, draw]⟩]).2 := by
  intro reseeding streaming rates draw sort g
  have hsort : DrawsNothing sort := rfl
  have hdraw : ¬DrawsNothing draw := by
    show ¬Draw.uniform.toFunction.isRandom = false
    decide
  have hinserts : Inserts DrawsNothing [draw, draw] [draw, sort, draw] :=
    .keep draw (.insert sort hsort (.keep draw .nil))
  obtain ⟨hreseeded, hstreamed, hinserted⟩ := run_reproducible
  exact ⟨hsort, hdraw, hreseeded reseeding reseeding rfl rfl rfl g g _ _ _,
    (hstreamed streaming rfl g _).1,
    (hinserted reseeding g [⟨1, [draw, draw]⟩] [⟨1, [draw, sort, draw]⟩]
      (.cons ⟨rfl, hinserts⟩ .nil)).2⟩

end Settings

end Quantities
