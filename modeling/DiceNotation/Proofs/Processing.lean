import DiceNotation.Context.Step
import DiceNotation.Proofs.Agreement
import DiceNotation.Proofs.Substitution
import DiceNotation.Roller.Tape

/-!
# Processing with and without rolls

A text can be processed for its totals alone or together with the rolls behind
them. Forgetting the rolls of the one gives the other
(`map_fst_processDetailed`), and the rolls belong to the expressions of the
text in their order (`RollsTo.map_expression`). What holds of every roll and
of sequences of actions holds of both kinds of processing, and of every step
that rolls (`Sequential.perform`).
-/

namespace DiceNotation.RollM

variable {σ : Type}

theorem map_mapM
    {α β γ : Type} (change : β → γ) (action : α → RollM σ β)
    (items : List α) :
    List.map change <$> items.mapM action =
      items.mapM fun item => change <$> action item := by
  induction items with
  | nil => simp only [List.mapM_nil, map_pure, List.map_nil]
  | cons item others inductionHypothesis =>
      rw [List.mapM_cons, List.mapM_cons, map_bind, bind_map_left]
      apply bind_congr
      intro value
      rw [← inductionHypothesis, map_bind, bind_map_left]
      apply bind_congr
      intro values
      rw [map_pure, List.map_cons]

variable [Roller σ]

theorem map_fst_processDetailed (attempts : Nat) (source : Text) :
    Prod.fst <$> processDetailed (σ := σ) attempts source =
      process attempts source := by
  have totals :
      evaluate (σ := σ) attempts =
        fun expression => Roll.total <$> roll attempts expression :=
    funext fun expression => (map_total_roll attempts expression).symm
  rw [process_eq, processDetailed, substitute_eq]
  by_cases nothing : occurrences source = []
  · rw [if_pos nothing, if_pos nothing, map_pure]
  · rw [if_neg nothing, if_neg nothing, totals, ← map_mapM, Functor.map_map,
      Functor.map_map]
    simp only [List.map_map, Function.comp_def]

namespace Sequential

variable {holds : ∀ {α : Type}, (Nat → RollM σ α) → Prop}
  (sequential : Sequential holds)
  (rolls : ∀ expression, holds (RollM.roll · expression))
include sequential rolls

theorem evaluate (expression : Expression) :
    holds (RollM.evaluate · expression) := by
  simp only [← map_total_roll]
  exact sequential.map (rolls expression) Roll.total

theorem processDetailed (source : Text) :
    holds (RollM.processDetailed · source) := by
  simp only [RollM.processDetailed, substitute_eq]
  by_cases nothing : occurrences source = []
  · simp only [if_pos nothing]
    exact sequential.holds_pure _
  · simp only [if_neg nothing]
    exact sequential.map (sequential.mapM rolls (expressions source)) _

theorem process (source : Text) : holds (RollM.process · source) := by
  simp only [← map_fst_processDetailed]
  exact sequential.map (sequential.processDetailed rolls source) Prod.fst

/-- Every step but a reset is made of rolls, one after the other. -/
theorem perform {step : Step} (noReset : step ≠ .reset) :
    holds (step.perform ·) := by
  cases step with
  | evaluate expression =>
      apply sequential.holds_bind (sequential.evaluate rolls expression)
      exact fun total => sequential.holds_pure (Answer.total total)
  | roll expression =>
      apply sequential.holds_bind (rolls expression)
      exact fun rolled => sequential.holds_pure (Answer.rolled rolled)
  | process source =>
      apply sequential.holds_bind (sequential.process rolls source)
      exact fun processed => sequential.holds_pure (Answer.text processed)
  | processDetailed source =>
      apply sequential.holds_bind (sequential.processDetailed rolls source)
      exact fun found =>
        sequential.holds_pure (Answer.detailed found.1 found.2)
  | reset => contradiction

end Sequential

theorem steady_processDetailed (source : Text) :
    Steady (σ := σ) (processDetailed · source) :=
  sequential_steady.processDetailed steady_roll source

theorem steady_process (source : Text) :
    Steady (σ := σ) (process · source) :=
  sequential_steady.process steady_roll source

/-- Processing ends as detailed processing does, without the rolls. -/
theorem returns_process_of_processDetailed
    {source : Text} {context after : Context σ}
    {result : Except RollError (Processed × List Roll)}
    (returned :
      Returns (processDetailed · source) context (result, after)) :
    Returns (process · source) context (result.map Prod.fst, after) := by
  simp only [← map_fst_processDetailed]
  exact returned.map Prod.fst

/-! ## Rolls and their expressions -/

section

variable {context after : Context σ}

theorem expression_of_returns_roll
    {expression : Expression} {rolled : Roll}
    (returned :
      Returns (roll · expression) context (.ok rolled, after)) :
    rolled.expression = expression := by
  have collected (attempts : Nat) :
      roll (σ := σ) attempts expression =
        (fun dice => ⟨expression, dice⟩) <$>
          (do
            checkThreshold expression
            charge expression.count.toNat
            collectDice attempts expression.sides expression.brutal
              expression.count.toNat []) := by
    simp only [roll, map_bind, bind_pure_comp]
  obtain ⟨enough, ends⟩ := returned
  have here := ends enough (Nat.le_refl _)
  simp only [collected, runIn_map, Option.map_eq_some_iff] at here
  obtain ⟨⟨error | dice, reached⟩, _, same⟩ := here
  · cases same
  · cases same
    rfl

theorem RollsTo.map_expression
    {expressions : List Expression} {rolls : List Roll}
    (rolled : RollsTo roll context expressions rolls after) :
    rolls.map Roll.expression = expressions := by
  induction rolled with
  | nil => rfl
  | cons first rest inductionHypothesis =>
      rw [List.map_cons, inductionHypothesis,
        expression_of_returns_roll first]

/-- Success of the detailed processing, by the rolls of the expressions. -/
theorem exists_rollsTo_of_returns_processDetailed
    {source : Text} {processed : Processed} {rolls : List Roll}
    (returned :
      Returns (processDetailed · source) context
        (.ok (processed, rolls), after)) :
    RollsTo roll context (expressions source) rolls after ∧
      processed.text =
        Text.weave (source.gaps ((occurrences source).map Occurrence.span))
          (rolls.map fun rolled => Text.decimal rolled.total) := by
  simp only [processDetailed, substitute_eq] at returned
  by_cases nothing : occurrences source = []
  · simp only [if_pos nothing, returns_const, runIn_pure] at returned
    cases returned
    rw [expressions, nothing]
    exact ⟨RollsTo.nil _, (Text.CutFrom.nil 0 source).weave_slices.symm⟩
  · simp only [if_neg nothing,
      returns_map (steady_mapM steady_roll (expressions source)),
      returns_mapM steady_roll] at returned
    obtain ⟨_, ⟨values, rolled, rfl⟩ | ⟨error, _, rfl⟩, same⟩ := returned
    · cases same
      exact ⟨rolled, rfl⟩
    · cases same

end

/-- With the rolls forgotten, detailed processing ends as processing does: with
the same error, or the same text, untouched or not, and in the same context.
The rolls are of the expressions in the text, in order, and their totals
between the gaps are what is returned. -/
theorem returns_process_iff_processDetailed
    (context : Context σ) (source : Text) (after : Context σ) :
    (∀ result : Except RollError Processed,
      Returns (process · source) context (result, after) ↔
        ∃ detailed,
          Returns (processDetailed · source) context (detailed, after) ∧
            detailed.map Prod.fst = result) ∧
    ∀ processed rolls,
      Returns (processDetailed · source) context
          (.ok (processed, rolls), after) →
        rolls.map Roll.expression = expressions source ∧
          processed.text =
            Text.weave
              (source.gaps ((occurrences source).map Occurrence.span))
              (rolls.map fun rolled => Text.decimal rolled.total) := by
  constructor
  · intro result
    simp only [← map_fst_processDetailed]
    exact returns_map (steady_processDetailed source)
  · intro processed rolls returned
    obtain ⟨rolled, woven⟩ :=
      exists_rollsTo_of_returns_processDetailed returned
    exact ⟨rolled.map_expression, woven⟩

/-- In `d2b1 then 2d1+3` the first die is rolled again once. -/
theorem processDetailed_rolls_again :
    ∃ rolls,
      Returns (processDetailed · "d2b1 then 2d1+3".toList)
          (Context.limited 10 (⟨[1, 2], 0⟩ : FaceTape))
          (.ok (.replaced "2 then 5".toList, rolls),
            ⟨some 10, 4, ⟨[], 4⟩⟩) ∧
        rolls.map Roll.expression =
            expressions "d2b1 then 2d1+3".toList ∧
          "2 then 5".toList =
            Text.weave
              (Text.gaps "d2b1 then 2d1+3".toList
                ((occurrences "d2b1 then 2d1+3".toList).map
                  Occurrence.span))
              (rolls.map fun rolled => Text.decimal rolled.total) := by
  let rolls : List Roll :=
    [⟨⟨.one, ⟨2, by decide⟩, 0, 1⟩, [⟨⟨2, by decide⟩, [1], 2⟩]⟩,
      ⟨⟨⟨2, by decide⟩, .one, 3, 0⟩, [⟨.one, [], 1⟩, ⟨.one, [], 1⟩]⟩]
  have found :
      occurrences "d2b1 then 2d1+3".toList =
        [⟨⟨.one, ⟨2, by decide⟩, 0, 1⟩, ⟨0, 4⟩⟩,
          ⟨⟨⟨2, by decide⟩, .one, 3, 0⟩, ⟨10, 15⟩⟩] := by
    decide +kernel
  have returned :
      Returns (processDetailed · "d2b1 then 2d1+3".toList)
        (Context.limited 10 (⟨[1, 2], 0⟩ : FaceTape))
        (.ok (.replaced "2 then 5".toList, rolls),
          ⟨some 10, 4, ⟨[], 4⟩⟩) := by
    rw [returns_iff_exists (steady_processDetailed _)]
    refine ⟨3, ?_⟩
    rw [processDetailed, substitute_eq, expressions, found]
    rfl
  exact
    ⟨rolls, returned,
      (returns_process_iff_processDetailed _ _ _).2 _ _ returned⟩

end DiceNotation.RollM
