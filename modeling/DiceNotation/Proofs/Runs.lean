import DiceNotation.Proofs.Recording
import DiceNotation.Proofs.Returning

/-!
# Runs of steps

A run takes steps one after the other and goes on after errors. Given enough
attempts, every run that ends at all ends in one way, step by step
(`runsTo_cons`).
-/

namespace DiceNotation.Step

variable {σ τ : Type} [Roller σ] {context after : Context σ}

/-- Given enough attempts, the steps have these outcomes, and the last of them
leaves this context behind. -/
def RunsTo (steps : List Step) (context : Context σ)
    (outcomes : List Outcome) (after : Context σ) : Prop :=
  ∃ results enough,
    (∀ attempts, enough ≤ attempts →
      performAll attempts steps context = some results) ∧
    outcomes = results.map Prod.fst ∧
    after = (results.map Prod.snd).getLastD context

theorem runsTo_nil {outcomes : List Outcome} :
    RunsTo [] context outcomes after ↔ outcomes = [] ∧ after = context := by
  constructor
  · intro runs
    obtain ⟨results, enough, ends, listed, final⟩ := runs
    cases ends enough (Nat.le_refl _)
    exact ⟨listed, final⟩
  · intro equalities
    exact ⟨[], 0, fun _ _ => rfl, equalities.1, equalities.2⟩

theorem performAll_cons_eq_some_iff
    {attempts : Nat} {step : Step} {steps : List Step}
    {results : List (Outcome × Context σ)} :
    performAll attempts (step :: steps) context = some results ↔
      ∃ first later,
        (step.perform attempts).runIn context = some first ∧
          performAll attempts steps first.2 = some later ∧
            results = first :: later := by
  rw [performAll]
  simp only [Option.bind_eq_bind, Option.bind_eq_some_iff, Option.pure_def,
    Option.some.injEq]
  constructor
  · intro ends
    obtain ⟨first, performed, later, others, equality⟩ := ends
    exact ⟨first, later, performed, others, equality.symm⟩
  · intro ends
    obtain ⟨first, later, performed, others, equality⟩ := ends
    exact ⟨first, performed, later, others, equality.symm⟩

/-- A run takes its first step and then the others in the context that is left,
even if the step fails. -/
theorem runsTo_cons
    {step : Step} {steps : List Step} {outcomes : List Outcome} :
    RunsTo (step :: steps) context outcomes after ↔
      ∃ outcome between others,
        RollM.Returns (step.perform ·) context (outcome, between) ∧
          RunsTo steps between others after ∧
            outcomes = outcome :: others := by
  constructor
  · intro runs
    obtain ⟨results, enough, ends, listed, final⟩ := runs
    obtain ⟨first, later, _, _, equality⟩ :=
      performAll_cons_eq_some_iff.mp (ends enough (Nat.le_refl _))
    subst equality
    -- Every number of attempts that is enough leads to these same results.
    have split (attempts : Nat) (le : enough ≤ attempts) :
        (step.perform attempts).runIn context = some first ∧
          performAll attempts steps first.2 = some later := by
      obtain ⟨_, _, performed, others, same⟩ :=
        performAll_cons_eq_some_iff.mp (ends attempts le)
      cases same
      exact ⟨performed, others⟩
    refine
      ⟨first.1, first.2, later.map Prod.fst,
        ⟨enough, fun attempts le => (split attempts le).1⟩,
        ⟨later, enough, fun attempts le => (split attempts le).2, rfl, ?_⟩,
        listed⟩
    rw [final, List.map_cons, List.getLastD_cons]
  · intro runs
    obtain ⟨outcome, between, others, performed, later, listed⟩ := runs
    obtain ⟨enough, ends⟩ := performed
    obtain ⟨results, alsoEnough, alsoEnds, laterListed, final⟩ := later
    refine
      ⟨(outcome, between) :: results, max enough alsoEnough, ?_, ?_, ?_⟩
    · intro attempts le
      exact
        performAll_cons_eq_some_iff.mpr
          ⟨(outcome, between), results,
            ends attempts (Nat.le_trans (Nat.le_max_left _ _) le),
            alsoEnds attempts (Nat.le_trans (Nat.le_max_right _ _) le),
            rfl⟩
    · rw [listed, laterListed, List.map_cons]
    · rw [final, List.map_cons, List.getLastD_cons]

/-- A run is the same run in every view of its rollers. -/
theorem RunsTo.map
    [Roller τ] {view : σ → τ} (respects : Roller.Respects view)
    {steps : List Step} {outcomes : List Outcome}
    (runs : RunsTo steps context outcomes after) :
    RunsTo steps (context.map view) outcomes (after.map view) := by
  obtain ⟨results, enough, ends, listed, final⟩ := runs
  refine
    ⟨results.map (Prod.map id (Context.map view)), enough, ?_, ?_, ?_⟩
  · intro attempts le
    rw [map_performAll respects, ends attempts le]
    rfl
  · rw [listed, List.map_map]
    rfl
  · have contexts :
        (results.map (Prod.map id (Context.map view))).map Prod.snd =
          (results.map Prod.snd).map (Context.map view) := by
      rw [List.map_map, List.map_map]
      rfl
    rw [final, contexts]
    generalize results.map Prod.snd = visited
    rw [List.getLastD_eq_getLast?, List.getLastD_eq_getLast?,
      List.getLast?_map, Option.getD_map]

end DiceNotation.Step
