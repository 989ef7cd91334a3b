import DiceNotation.Context.Step

/-!
# Relations between actions

What is done in a context is put together from a few basic actions, and is
the same for all rollers. So a relation between the actions in two kinds of
contexts, if it holds of the basic actions and sequencing preserves it, holds
of every step (`Step.parametric_perform`).
-/

namespace DiceNotation

namespace RollM

variable {σ τ : Type} [Roller σ] [Roller τ]

/-- Each basic action is related to the same action in the other contexts, and
sequences of related actions are related. -/
structure Parametric
    (related : ∀ {α : Type}, RollM σ α → RollM τ α → Prop) : Prop where
  related_pure {α : Type} (value : α) :
    related (pure value) (pure value)
  related_bind {α β : Type} {action : RollM σ α} {image : RollM τ α}
    {next : α → RollM σ β} {imageNext : α → RollM τ β} :
    related action image →
      (∀ value, related (next value) (imageNext value)) →
        related (action >>= next) (image >>= imageNext)
  related_throw (brutal sides : UInt32) :
    related (throw (.invalidThreshold brutal sides) : RollM σ Unit)
      (throw (.invalidThreshold brutal sides))
  related_unfinished {α : Type} :
    related (unfinished : RollM σ α) unfinished
  related_charge (amount : Nat) : related (charge amount) (charge amount)
  related_draw (sides : Positive) : related (draw sides) (draw sides)
  related_reset : related reset reset

namespace Parametric

variable {related : ∀ {α : Type}, RollM σ α → RollM τ α → Prop}
  (parametric : Parametric related) (attempts : Nat)
include parametric

theorem checkThreshold (expression : Expression) :
    related (checkThreshold expression) (checkThreshold expression) := by
  by_cases keepable : expression.Keepable
  · simp only [RollM.checkThreshold, if_pos keepable]
    exact parametric.related_pure ()
  · simp only [RollM.checkThreshold, if_neg keepable]
    exact parametric.related_throw _ _

/-- Whatever is gathered on the way, the two loops draw and reject alike. -/
theorem keepFace
    {γ : Type} (sides : Positive) (brutal : UInt32)
    (reject : γ → UInt32 → γ) (gathered : γ) :
    related (keepFace sides brutal reject attempts gathered)
      (keepFace sides brutal reject attempts gathered) := by
  induction attempts generalizing gathered with
  | zero => exact parametric.related_unfinished
  | succ attempts inductionHypothesis =>
      rw [RollM.keepFace, RollM.keepFace]
      apply parametric.related_bind (parametric.related_draw sides)
      intro face
      by_cases rejected : face ≤ brutal
      · rw [if_pos rejected, if_pos rejected]
        apply parametric.related_bind (parametric.related_charge 1)
        intro _
        exact inductionHypothesis (reject gathered face)
      · rw [if_neg rejected, if_neg rejected]
        exact parametric.related_pure (gathered, face)

theorem addDice (sides : Positive) (brutal : UInt32) (count sum : Nat) :
    related (addDice attempts sides brutal count sum)
      (addDice attempts sides brutal count sum) := by
  induction count generalizing sum with
  | zero => exact parametric.related_pure sum
  | succ count inductionHypothesis =>
      apply
        parametric.related_bind
          (parametric.keepFace attempts sides brutal _ ())
      intro kept
      exact inductionHypothesis _

theorem collectDice
    (sides : Positive) (brutal : UInt32) (count : Nat) (dice : List Die) :
    related (collectDice attempts sides brutal count dice)
      (collectDice attempts sides brutal count dice) := by
  induction count generalizing dice with
  | zero => exact parametric.related_pure dice.reverse
  | succ count inductionHypothesis =>
      apply
        parametric.related_bind
          (parametric.keepFace attempts sides brutal _ [])
      intro kept
      exact inductionHypothesis _

theorem checked
    {α : Type} {action : RollM σ α} {image : RollM τ α}
    (behind : related action image) (expression : Expression) :
    related
      (do
        RollM.checkThreshold expression
        charge expression.count.toNat
        action)
      (do
        RollM.checkThreshold expression
        charge expression.count.toNat
        image) := by
  apply parametric.related_bind (parametric.checkThreshold expression)
  intro _
  apply parametric.related_bind (parametric.related_charge _)
  intro _
  exact behind

theorem evaluate (expression : Expression) :
    related (evaluate attempts expression)
      (evaluate attempts expression) :=
  parametric.checked (parametric.addDice attempts _ _ _ _) expression

theorem roll (expression : Expression) :
    related (roll attempts expression) (roll attempts expression) := by
  apply parametric.checked
  apply
    parametric.related_bind (parametric.collectDice attempts _ _ _ [])
  intro dice
  exact parametric.related_pure (Roll.mk expression dice)

section

variable {β : Type} {rollOne : Expression → RollM σ β}
  {imageOne : Expression → RollM τ β}
  (ones :
    ∀ expression, related (rollOne expression) (imageOne expression))
  (total : β → Nat) (source : Text)
include ones

theorem replaceFrom (cursor : Nat) (found : List Occurrence) :
    related (replaceFrom rollOne total source cursor found)
      (replaceFrom imageOne total source cursor found) := by
  induction found generalizing cursor with
  | nil => exact parametric.related_pure _
  | cons first others inductionHypothesis =>
      apply parametric.related_bind (ones first.expression)
      intro rolled
      apply parametric.related_bind (inductionHypothesis first.span.stop)
      intro rest
      exact parametric.related_pure _

/-- What is done with each expression may differ in the two contexts, as long as
it is related. -/
theorem substitute :
    related (substitute rollOne total source)
      (substitute imageOne total source) := by
  rw [RollM.substitute, RollM.substitute]
  cases occurrences source with
  | nil => exact parametric.related_pure _
  | cons first others =>
      apply
        parametric.related_bind
          (parametric.replaceFrom ones total source 0 (first :: others))
      intro replaced
      exact parametric.related_pure _

end

theorem process (source : Text) :
    related (process attempts source) (process attempts source) := by
  apply
    parametric.related_bind
      (parametric.substitute (parametric.evaluate attempts) id source)
  intro found
  exact parametric.related_pure found.1

/-- Detailed processing is a substitution of rolls. -/
theorem processDetailed (source : Text) :
    related (processDetailed attempts source)
      (processDetailed attempts source) :=
  parametric.substitute (parametric.roll attempts) Roll.total source

end Parametric

end RollM

namespace Step

open RollM in
/-- Every step is related to the same step in the other contexts. -/
theorem parametric_perform
    {σ τ : Type} [Roller σ] [Roller τ]
    {related : ∀ {α : Type}, RollM σ α → RollM τ α → Prop}
    (parametric : Parametric related) (attempts : Nat) (step : Step) :
    related (step.perform attempts) (step.perform attempts) := by
  cases step with
  | evaluate expression =>
      apply
        parametric.related_bind (parametric.evaluate attempts expression)
      intro total
      exact parametric.related_pure (Answer.total total)
  | roll expression =>
      apply parametric.related_bind (parametric.roll attempts expression)
      intro rolled
      exact parametric.related_pure (Answer.rolled rolled)
  | process source =>
      apply parametric.related_bind (parametric.process attempts source)
      intro processed
      exact parametric.related_pure (Answer.text processed)
  | processDetailed source =>
      apply
        parametric.related_bind (parametric.processDetailed attempts source)
      intro found
      exact parametric.related_pure (Answer.detailed found.1 found.2)
  | reset =>
      apply parametric.related_bind parametric.related_reset
      intro _
      exact parametric.related_pure Answer.done

end Step

end DiceNotation
