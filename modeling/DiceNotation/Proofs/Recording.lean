import DiceNotation.Proofs.Parametric

/-!
# Rollers that keep a record

A roller can be made to remember every call and the face that it showed. What
is done in a context does not depend on how its roller works inside, only on
the faces that it shows; so a record changes nothing
(`map_performAll`, `respects_source`).
-/

namespace DiceNotation

/-- A roller, the dice that it has been asked to roll, and the faces that it
has shown, earliest first. -/
structure Recorded (σ : Type) where
  source : σ
  calls : List (Positive × UInt32)
deriving DecidableEq, Repr

namespace Recorded

variable {σ : Type}

/-- The roller with an empty record. -/
def start (source : σ) : Recorded σ := ⟨source, []⟩

instance [Roller σ] : Roller (Recorded σ) where
  roll recorded sides :=
    let rolled := Roller.roll recorded.source sides
    (rolled.1, ⟨rolled.2, recorded.calls ++ [(sides, rolled.1)]⟩)

end Recorded

section

variable {σ τ α β : Type}

/-- The same context with another view of its roller. -/
def Context.map (view : σ → τ) (context : Context σ) : Context τ :=
  ⟨context.limit, context.rolled, view context.roller⟩

/-- What `view` makes of a roller shows the same faces as the roller. -/
def Roller.Respects [Roller σ] [Roller τ] (view : σ → τ) : Prop :=
  ∀ source sides,
    Roller.roll (view source) sides =
      Prod.map id view (Roller.roll source sides)

/-- A roller that keeps a record shows the faces of the roller without it. -/
theorem Recorded.respects_source [Roller σ] :
    Roller.Respects (Recorded.source (σ := σ)) :=
  fun _ _ => rfl

namespace RollM

/-- In the view of a context, `image` ends as `action` does in the context
itself. -/
def Mirrors (view : σ → τ) (action : RollM σ α) (image : RollM τ α) :
    Prop :=
  ∀ context,
    runIn (context.map view) image =
      (runIn context action).map (Prod.map id (Context.map view))

theorem Mirrors.bind
    {view : σ → τ} {action : RollM σ α} {image : RollM τ α}
    {next : α → RollM σ β} {imageNext : α → RollM τ β}
    (first : Mirrors view action image)
    (second : ∀ value, Mirrors view (next value) (imageNext value)) :
    Mirrors view (action >>= next) (image >>= imageNext) := by
  intro context
  rw [runIn_bind, runIn_bind, first context]
  rcases runIn context action with _ | ⟨error | value, between⟩
  · rfl
  · rfl
  · exact second value between

theorem mirrors_charge (view : σ → τ) (amount : Nat) :
    Mirrors view (charge amount) (charge amount) := by
  intro context
  have same :
      ((context.map view).count amount).excess? =
        (context.count amount).excess? :=
    rfl
  rw [runIn_charge, runIn_charge, same]
  cases (context.count amount).excess? with
  | none => rfl
  | some error => rfl

theorem mirrors_draw
    [Roller σ] [Roller τ] {view : σ → τ} (respects : Roller.Respects view)
    (sides : Positive) :
    Mirrors view (draw sides) (draw sides) := by
  intro context
  have same := respects context.roller sides
  rw [runIn_draw, runIn_draw, Context.shown, Context.drawn]
  simp only [Context.map, same]
  rfl

/-- A view that respects the roller is kept by all that actions are made of. -/
theorem parametric_mirrors
    [Roller σ] [Roller τ] {view : σ → τ}
    (respects : Roller.Respects view) :
    Parametric fun action image => Mirrors view action image where
  related_pure _ _ := rfl
  related_bind := Mirrors.bind
  related_throw _ _ _ := rfl
  related_unfinished _ := rfl
  related_charge := mirrors_charge view
  related_draw := mirrors_draw respects
  related_reset _ := rfl

end RollM

namespace Step

variable [Roller σ] [Roller τ] {view : σ → τ}
  (respects : Roller.Respects view)
include respects

theorem mirrors_perform (attempts : Nat) (step : Step) :
    RollM.Mirrors view (step.perform attempts) (step.perform attempts) :=
  parametric_perform (RollM.parametric_mirrors respects) attempts step

/-- Steps in the view of a context have the same outcomes, and leave behind the
views of the contexts. -/
theorem map_performAll
    (attempts : Nat) (steps : List Step) (context : Context σ) :
    performAll attempts steps (context.map view) =
      (performAll attempts steps context).map
        (List.map (Prod.map id (Context.map view))) := by
  induction steps generalizing context with
  | nil => rfl
  | cons step steps inductionHypothesis =>
      rw [performAll, performAll,
        mirrors_perform respects attempts step context]
      cases RollM.runIn context (step.perform attempts) with
      | none => rfl
      | some after =>
          simp only [Option.map_some, Option.bind_eq_bind,
            Option.bind_some, Prod.map_snd, inductionHypothesis]
          cases performAll attempts steps after.2 with
          | none => rfl
          | some later => rfl

end Step

end

end DiceNotation
