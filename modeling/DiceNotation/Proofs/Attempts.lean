import DiceNotation.Proofs.Blocks
import DiceNotation.Proofs.Completion

/-!
# Attempts and limits

Every rejected face counts as one more die, so a limit bounds the attempts that
a die can use up (`RollM.exists_runIn_keepFace`). A session gives each die more
attempts than its budget can reject. Below the greatest budget it therefore
answers every line, whatever dice are in its blocks
(`Console.Session.exists_acceptAll_of_limited`).
-/

namespace DiceNotation

namespace RollM

open Context

variable {σ α β : Type} {limit : UInt64}

/-- From every context with this limit the action ends, and the limit is still
the same. -/
def EndsWithin (limit : UInt64) (action : RollM σ α) : Prop :=
  ∀ context : Context σ, context.limit = some limit →
    ∃ result after,
      runIn context action = some (result, after) ∧
        after.limit = some limit

/-! ## Composed actions -/

section

variable {action : RollM σ α}

theorem endsWithin_pure (value : α) :
    EndsWithin limit (pure value : RollM σ α) :=
  fun context present => ⟨_, context, rfl, present⟩

theorem EndsWithin.bind
    {next : α → RollM σ β} (first : EndsWithin limit action)
    (second : ∀ value, EndsWithin limit (next value)) :
    EndsWithin limit (action >>= next) := by
  intro context present
  obtain ⟨error | value, between, ends, stillPresent⟩ :=
    first context present
  · refine ⟨.error error, between, ?_, stillPresent⟩
    rw [runIn_bind, ends]
  · obtain ⟨result, after, later, final⟩ :=
      second value between stillPresent
    refine ⟨result, after, ?_, final⟩
    rw [runIn_bind, ends]
    exact later

theorem sequential_endsWithin :
    Sequential (σ := σ) fun action =>
      ∀ attempts, EndsWithin limit (action attempts) where
  holds_pure value _ := endsWithin_pure value
  holds_bind first second attempts :=
    (first attempts).bind fun value => second value attempts

theorem endsWithin_charge (amount : Nat) :
    EndsWithin limit (charge amount : RollM σ Unit) := by
  intro context present
  rw [runIn_charge]
  cases (context.count amount).excess? with
  | none => exact ⟨_, _, rfl, present⟩
  | some error => exact ⟨_, _, rfl, present⟩

theorem endsWithin_checkThreshold (expression : Expression) :
    EndsWithin limit (checkThreshold expression : RollM σ Unit) := by
  intro context present
  by_cases keepable : expression.Keepable
  · rw [checkThreshold, if_pos keepable]
    exact ⟨_, context, rfl, present⟩
  · rw [checkThreshold, if_neg keepable]
    exact ⟨_, context, rfl, present⟩

end

/-! ## Dice -/

section

variable [Roller σ] (bound : limit.toNat < UInt64.size - 1)
include bound

/-- A die ends if it has more attempts than the limit leaves room for rejected
faces. -/
theorem exists_runIn_keepFace
    (sides : Positive) (brutal : UInt32) (reject : β → UInt32 → β)
    {attempts : Nat} (gathered : β) {context : Context σ}
    (present : context.limit = some limit)
    (enough : limit.toNat < context.rolled.toNat + attempts)
    (someAttempt : 0 < attempts) :
    ∃ result after,
      runIn context (keepFace sides brutal reject attempts gathered) =
          some (result, after) ∧
        after.limit = some limit := by
  induction attempts generalizing context gathered with
  | zero => contradiction
  | succ attempts inductionHypothesis =>
      by_cases above : brutal < context.shown sides
      · exact ⟨_, _, runIn_keepFace_of_lt above attempts, present⟩
      · rw [runIn_keepFace_of_le (UInt32.not_lt.mp above)]
        cases excess : ((context.drawn sides).count 1).excess? with
        | some error => exact ⟨_, _, rfl, present⟩
        | none =>
            -- The rejected face has been counted and leaves less room.
            have affords : (context.drawn sides).Affords 1 := excess
            have within : context.rolled.toNat + 1 ≤ limit.toNat :=
              le_of_affords present bound affords
            have counted :
                ((context.drawn sides).count 1).rolled.toNat =
                  context.rolled.toNat + 1 :=
              toNat_rolled_count_of_le within
            have present :
                ((context.drawn sides).count 1).limit = some limit :=
              present
            exact
              inductionHypothesis _ present (by omega) (by omega)

variable {attempts : Nat} (enough : limit.toNat < attempts)
include enough

theorem endsWithin_collectDice
    (sides : Positive) (brutal : UInt32) (count : Nat) (dice : List Die) :
    EndsWithin limit
      (collectDice (σ := σ) attempts sides brutal count dice) := by
  induction count generalizing dice with
  | zero => exact endsWithin_pure dice.reverse
  | succ count inductionHypothesis =>
      have first :
          EndsWithin limit
            (keepFace (σ := σ) sides brutal
              (fun faces face => face :: faces) attempts []) := by
        intro context present
        exact
          exists_runIn_keepFace bound sides brutal _ [] present
            (by omega) (by omega)
      apply first.bind
      intro kept
      exact inductionHypothesis _

theorem endsWithin_roll (expression : Expression) :
    EndsWithin limit (roll (σ := σ) attempts expression) := by
  apply (endsWithin_checkThreshold expression).bind
  intro _
  apply (endsWithin_charge _).bind
  intro _
  apply (endsWithin_collectDice bound enough _ _ _ []).bind
  intro dice
  exact endsWithin_pure _

/-- A text is processed within any limit below the greatest, if a die may take
more attempts than the limit has dice. -/
theorem endsWithin_processDetailed (source : Text) :
    EndsWithin limit (processDetailed (σ := σ) attempts source) := by
  rw [processDetailed, substitute_eq_map]
  have rolled :=
    sequential_endsWithin.mapM
      (fun expression _ => endsWithin_roll (σ := σ) bound enough expression)
      (expressions source)
  exact sequential_endsWithin.map rolled _ attempts

end

end RollM

/-! ## Sessions -/

namespace Console

variable {σ : Type} [Roller σ] {setup : Setup σ}
  (bounded : setup.budget.toNat < UInt64.size - 1)
include bounded

theorem Setup.exists_shown?_of_limited (block : Nat) (source : Text) :
    ∃ shown, setup.shown? block source = some shown := by
  have enough : setup.budget.toNat < setup.attempts := by
    rw [attempts]
    omega
  obtain ⟨result, after, ends, _⟩ :=
    RollM.endsWithin_processDetailed bounded enough source
      (setup.context block) rfl
  rw [shown?, ends]
  exact ⟨report result, rfl⟩

/-- Every line is answered. -/
theorem Session.exists_acceptAll_of_limited
    (session : Session) (lines : List Text) :
    ∃ transcript,
      acceptAll setup session lines = some transcript := by
  induction lines generalizing session with
  | nil => exact ⟨{ }, rfl⟩
  | cons line lines inductionHypothesis =>
      obtain ⟨answer, answers⟩ :
          ∃ answer, session.answer? setup line = some answer := by
        cases line with
        | nil =>
            obtain ⟨shown, shows⟩ :=
              Setup.exists_shown?_of_limited bounded session.blocks
                (blockText session.lines)
            rw [answer?, shows]
            exact ⟨_, rfl⟩
        | cons letter letters => exact ⟨_, rfl⟩
      obtain ⟨later, follows⟩ := inductionHypothesis (session.next line)
      rw [acceptAll_cons, answers, Option.bind_eq_bind, Option.bind_some,
        follows]
      exact ⟨_, rfl⟩

end Console

end DiceNotation
