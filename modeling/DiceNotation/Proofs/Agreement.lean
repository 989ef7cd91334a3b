import DiceNotation.Proofs.Returning

/-!
# Totals and histories

`evaluate` keeps a running sum where `roll` keeps every face. Both draw and
count in the same way, so the total of what `roll` returns is what `evaluate`
returns.
-/

namespace DiceNotation.RollM

variable {σ : Type} [Roller σ]

/-- How rejected faces are gathered has no influence on what is drawn. -/
theorem map_keepFace
    {β γ : Type} (sides : Positive) (brutal : UInt32)
    (reject : β → UInt32 → β) (rejectAlso : γ → UInt32 → γ)
    (translate : β → γ)
    (commutes :
      ∀ gathered face,
        translate (reject gathered face) =
          rejectAlso (translate gathered) face)
    (attempts : Nat) (gathered : β) :
    Prod.map translate id <$>
        keepFace (σ := σ) sides brutal reject attempts gathered =
      keepFace sides brutal rejectAlso attempts (translate gathered) := by
  induction attempts generalizing gathered with
  | zero => rfl
  | succ attempts inductionHypothesis =>
      rw [keepFace, keepFace, map_bind]
      apply bind_congr
      intro face
      by_cases rejected : face ≤ brutal
      · rw [if_pos rejected, if_pos rejected, map_bind]
        apply bind_congr
        intro _
        rw [inductionHypothesis, commutes]
      · rw [if_neg rejected, if_neg rejected, map_pure]
        rfl

theorem map_collectDice
    (attempts : Nat) (sides : Positive) (brutal : UInt32) (addend : Nat)
    (count : Nat) (dice : List Die) :
    (fun rolled : List Die => sumFaces (rolled.map Die.kept) + addend) <$>
      collectDice (σ := σ) attempts sides brutal count dice =
    addDice attempts sides brutal count
      (sumFaces (dice.map Die.kept) + addend) := by
  -- The dice come last first; their sum does not depend on the order.
  induction count generalizing dice with
  | zero =>
      rw [collectDice, addDice, map_pure, List.map_reverse,
        sumFaces_reverse]
  | succ count inductionHypothesis =>
      have sameDraws :=
        map_keepFace (σ := σ) sides brutal
          (fun (faces : List UInt32) face => face :: faces)
          (fun (_ : Unit) _ => ()) (fun _ => ()) (fun _ _ => rfl)
          attempts []
      rw [collectDice, addDice, ← sameDraws, map_bind, bind_map_left]
      apply bind_congr
      intro kept
      rw [inductionHypothesis, List.map_cons, sumFaces]
      congr 1
      simp only [Prod.map_snd, id_eq]
      omega

theorem map_total_roll (attempts : Nat) (expression : Expression) :
    Roll.total <$> roll (σ := σ) attempts expression =
      evaluate attempts expression := by
  have sums :=
    map_collectDice (σ := σ) attempts expression.sides expression.brutal
      expression.addend.toNat expression.count.toNat []
  rw [List.map_nil, sumFaces, Nat.zero_add] at sums
  rw [roll, evaluate, map_bind]
  apply bind_congr
  intro _
  rw [map_bind]
  apply bind_congr
  intro _
  rw [map_bind, ← sums, ← bind_pure_comp]
  exact bind_congr fun dice => map_pure Roll.total _

/-- A total is that of a roll. -/
theorem exists_rolled_of_returns_evaluate
    {context after : Context σ} {expression : Expression} {total : Nat}
    (returned :
      Returns (evaluate · expression) context (.ok total, after)) :
    ∃ rolled,
      Returns (roll · expression) context (.ok rolled, after) ∧
        rolled.total = total := by
  simp only [← map_total_roll, returns_map (steady_roll expression)]
    at returned
  obtain ⟨error | rolled, rolls, same⟩ := returned
  · contradiction
  · exact ⟨rolled, rolls, Except.ok.inj same⟩

/-- From the same context, `evaluate` returns the total of what `roll`
returns, or the same error, and both leave the same context behind. -/
theorem returns_evaluate_iff_roll
    (context : Context σ) (expression : Expression) (after : Context σ) :
    (∀ total,
      Returns (evaluate · expression) context (.ok total, after) ↔
        ∃ rolled,
          Returns (roll · expression) context (.ok rolled, after) ∧
            rolled.total = total) ∧
      ∀ error,
        Returns (evaluate · expression) context (.error error, after) ↔
          Returns (roll · expression) context (.error error, after) := by
  have translated (result : Except RollError Nat) :
      Returns (evaluate · expression) context (result, after) ↔
        ∃ rolled,
          Returns (roll · expression) context (rolled, after) ∧
            rolled.map Roll.total = result := by
    simp only [← map_total_roll]
    exact returns_map (steady_roll expression)
  constructor
  · intro total
    rw [translated]
    constructor
    · intro evaluated
      rcases evaluated with ⟨error | rolled, returned, equality⟩
      · contradiction
      · exact ⟨rolled, returned, Except.ok.inj equality⟩
    · intro rolls
      rcases rolls with ⟨rolled, returned, equality⟩
      exact ⟨.ok rolled, returned, congrArg Except.ok equality⟩
  · intro error
    rw [translated]
    constructor
    · intro evaluated
      rcases evaluated with ⟨failure | rolled, returned, equality⟩
      · cases equality
        exact returned
      · contradiction
    · intro returned
      exact ⟨.error error, returned, rfl⟩

end DiceNotation.RollM
