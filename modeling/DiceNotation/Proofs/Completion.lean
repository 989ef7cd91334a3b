import DiceNotation.Proofs.Exhaustion
import DiceNotation.Proofs.History

/-!
# Which evaluations succeed

An evaluation succeeds just where its threshold leaves a face and the roller
shows enough faces above it before the limit is exceeded
(`returns_evaluate_ok_iff`). It fails for its threshold, or because the limit
comes before the last of these faces, even if there is none
(`exists_returns_evaluate_error_iff`). Without a limit it may also go on
forever.
-/

namespace DiceNotation

/-! ## Faces that are kept -/

theorem Die.StopsAbove.filter_faces
    {brutal : UInt32} {die : Die} (stops : die.StopsAbove brutal) :
    die.faces.filter (brutal < ·) = [die.kept] := by
  obtain ⟨low, last, shown, lowest, above⟩ := stops
  have nothing : low.filter (brutal < ·) = [] := by
    simpa only [List.filter_eq_nil_iff, decide_eq_true_eq,
      UInt32.not_lt] using lowest
  have sameLast := die.getLast?_faces
  rw [shown, List.getLast?_concat, Option.some.injEq] at sameLast
  rw [shown, List.filter_append, nothing, List.nil_append, ← sameLast,
    List.filter_cons_of_pos (by simpa only [decide_eq_true_eq] using above)]
  rfl

theorem filter_flatMap_faces
    {brutal : UInt32} {dice : List Die}
    (stops : ∀ die ∈ dice, die.StopsAbove brutal) :
    (dice.flatMap Die.faces).filter (brutal < ·) =
      dice.map Die.kept := by
  induction dice with
  | nil => rfl
  | cons die dice inductionHypothesis =>
      obtain ⟨first, others⟩ := List.forall_mem_cons.mp stops
      rw [List.flatMap_cons, List.filter_append, first.filter_faces,
        inductionHypothesis others]
      rfl

namespace Context

variable {σ : Type} {context : Context σ}

theorem affords_or_exceeded (context : Context σ) (amount : Nat) :
    context.Affords amount ∨
      ∃ limit,
        context.limit = some limit ∧ limit.toNat < UInt64.size - 1 ∧
          limit.toNat < context.rolled.toNat + amount := by
  by_cases affords : context.Affords amount
  · exact Or.inl affords
  · rw [affords_iff] at affords
    push Not at affords
    obtain ⟨limit, present, exceeded⟩ := affords
    exact Or.inr ⟨limit, present, by omega, by omega⟩

end Context

/-- The limit comes before the dice are all kept, if they ever are. -/
def Expression.Late
    {σ : Type} [Roller σ] (expression : Expression) (context : Context σ)
    (limit : UInt64) : Prop :=
  ∀ calls, expression.Takes context.roller calls →
    limit.toNat < context.rolled.toNat + calls

namespace RollM

open Context

variable {σ α β : Type}

/-! ## Failures of rolling -/

/-- The action does not change the limit and fails only where it is
exceeded. -/
def FailsByLimit (action : RollM σ α) : Prop :=
  ∀ context result after, runIn context action = some (result, after) →
    after.limit = context.limit ∧
      ∀ error, result = .error error →
        ∃ limit, error = .tooManyDice limit ∧ after.Exhausted limit

theorem failsByLimit_of_ok
    {action : RollM σ α}
    (ends :
      ∀ context, ∃ value after,
        runIn context action = some (.ok value, after) ∧
          after.limit = context.limit) :
    FailsByLimit action := by
  intro context result after ended
  obtain ⟨value, reached, succeeds, sameLimit⟩ := ends context
  rw [succeeds] at ended
  cases ended
  exact ⟨sameLimit, nofun⟩

theorem FailsByLimit.bind
    {action : RollM σ α} {next : α → RollM σ β}
    (first : FailsByLimit action)
    (second : ∀ value, FailsByLimit (next value)) :
    FailsByLimit (action >>= next) := by
  intro context result after ended
  rcases runIn_bind_eq_some_iff.mp ended with
    ⟨value, between, begun, later⟩ | ⟨error, begun, same⟩
  · have limitBetween := (first context _ between begun).1
    have secondFails := second value between result after later
    rw [limitBetween] at secondFails
    exact secondFails
  · have firstFails := first context _ after begun
    subst same
    refine ⟨firstFails.1, ?_⟩
    intro other sameError
    cases sameError
    exact firstFails.2 error rfl

theorem failsByLimit_charge (amount : Nat) :
    FailsByLimit (charge amount : RollM σ Unit) := by
  intro context result after ended
  rw [runIn_charge] at ended
  cases excess : (context.count amount).excess? with
  | none =>
      rw [excess] at ended
      cases ended
      exact ⟨rfl, nofun⟩
  | some error =>
      rw [excess] at ended
      cases ended
      refine ⟨rfl, ?_⟩
      intro other same
      cases same
      exact excess?_eq_some_iff.mp excess

section

variable [Roller σ] (attempts : Nat) (sides : Positive) (brutal : UInt32)

theorem failsByLimit_keepFace
    (reject : β → UInt32 → β) (gathered : β) :
    FailsByLimit (σ := σ)
      (keepFace sides brutal reject attempts gathered) := by
  have drawn : FailsByLimit (σ := σ) (draw sides) :=
    failsByLimit_of_ok fun context => ⟨_, _, runIn_draw context sides, rfl⟩
  induction attempts generalizing gathered with
  | zero =>
      intro context result after ended
      contradiction
  | succ attempts inductionHypothesis =>
      rw [keepFace]
      apply drawn.bind
      intro face
      by_cases rejected : face ≤ brutal
      · rw [if_pos rejected]
        apply (failsByLimit_charge 1).bind
        intro _
        exact inductionHypothesis (reject gathered face)
      · rw [if_neg rejected]
        exact
          failsByLimit_of_ok fun context =>
            ⟨_, _, runIn_pure context (gathered, face), rfl⟩

theorem failsByLimit_addDice (count sum : Nat) :
    FailsByLimit (σ := σ) (addDice attempts sides brutal count sum) := by
  induction count generalizing sum with
  | zero =>
      exact
        failsByLimit_of_ok fun context =>
          ⟨_, _, runIn_pure context sum, rfl⟩
  | succ count inductionHypothesis =>
      apply (failsByLimit_keepFace attempts sides brutal _ ()).bind
      intro kept
      exact inductionHypothesis _

end

/-! ## The two ways to end -/

variable [Roller σ] {context after : Context σ} {expression : Expression}

/-- An expression with a usable threshold fails only because of a limit. -/
theorem exists_limit_of_returns_evaluate
    {error : RollError} (keepable : expression.Keepable)
    (returned :
      Returns (evaluate · expression) context (.error error, after)) :
    ∃ limit,
      context.limit = some limit ∧ limit.toNat < UInt64.size - 1 ∧
        error = .tooManyDice limit := by
  obtain ⟨enough, ends⟩ := returned
  have here := ends enough (Nat.le_refl _)
  simp only [evaluate, checkThreshold, if_pos keepable, pure_bind] at here
  have fails :
      FailsByLimit
        (charge expression.count.toNat >>= fun _ =>
          addDice (σ := σ) enough expression.sides expression.brutal
            expression.count.toNat expression.addend.toNat) :=
    (failsByLimit_charge _).bind fun _ => failsByLimit_addDice _ _ _ _ _
  obtain ⟨sameLimit, failed⟩ := fails context _ after here
  obtain ⟨limit, same, limited, exceeded⟩ := failed error rfl
  rw [sameLimit] at limited
  have below := UInt64.lt_iff_toNat_lt.mp exceeded
  have small := after.rolled.toNat_lt_size
  exact ⟨limit, limited, by omega, same⟩

theorem exists_takes_of_returns_evaluate
    {total : Nat}
    (returned :
      Returns (evaluate · expression) context (.ok total, after)) :
    ∃ calls, expression.Takes context.roller calls := by
  obtain ⟨rolled, rolls, _⟩ := exists_rolled_of_returns_evaluate returned
  obtain ⟨length, stops, shown, _⟩ := dice_of_returns_roll rolls
  have kept :
      Roller.kept expression.sides context.roller expression.brutal
          (expression.count.toNat + rolled.rerolls) =
        rolled.dice.map Die.kept := by
    rw [Roller.kept, Roller.selected, ← shown]
    exact filter_flatMap_faces fun die member => (stops die member).2
  have allKept :
      expression.count.toNat ≤
        (Roller.kept expression.sides context.roller expression.brutal
          (expression.count.toNat + rolled.rerolls)).length := by
    rw [kept, List.length_map, length]
  obtain ⟨calls, _, takes⟩ := Roller.exists_isLeast allKept
  exact ⟨calls, takes⟩

theorem exists_returns_evaluate_of_late
    {limit : UInt64} (keepable : expression.Keepable)
    (present : context.limit = some limit)
    (bound : limit.toNat < UInt64.size - 1)
    (late : expression.Late context limit) :
    ∃ after,
      Returns (evaluate · expression) context
        (.error (.tooManyDice limit), after) := by
  by_cases fits :
      context.rolled.toNat + expression.count.toNat ≤ limit.toNat
  · obtain ⟨calls, least, owing⟩ := exists_isLeast_rejected fits late
    exact
      ⟨_,
        returns_evaluate_of_isLeast keepable owing least
          (affords_of_le present (by omega))
          (excess?_count_of_lt present bound (by omega))⟩
  · have excess := Nat.lt_of_not_le fits
    exact
      ⟨_,
        returns_evaluate_of_excess keepable
          (excess?_count_of_lt present bound excess)⟩

/-- An evaluation succeeds where its threshold leaves a face and the limit
allows the draws that it takes. -/
theorem returns_evaluate_ok_iff {total : Nat} :
    Returns (evaluate · expression) context (.ok total, after) ↔
      expression.Keepable ∧
        ∃ calls,
          expression.Takes context.roller calls ∧
            context.Affords calls ∧
            total =
              expression.addend.toNat +
                sumFaces
                  (Roller.kept expression.sides context.roller
                    expression.brutal calls) ∧
            after = context.advanced expression.sides calls calls := by
  constructor
  · intro returned
    have keepable : expression.Keepable := by
      by_contra unkeepable
      cases (returns_evaluate_of_not_keepable unkeepable).unique returned
    obtain ⟨calls, takes⟩ := exists_takes_of_returns_evaluate returned
    refine ⟨keepable, calls, takes, ?_⟩
    rcases context.affords_or_exceeded calls with
      affords | ⟨limit, present, bound, exceeded⟩
    · have ended := returns_evaluate_of_takes keepable takes affords
      cases ended.unique returned
      exact ⟨affords, rfl, rfl⟩
    · have late : expression.Late context limit := by
        intro others takesOthers
        rw [takesOthers.unique takes]
        exact exceeded
      obtain ⟨reached, failed⟩ :=
        exists_returns_evaluate_of_late keepable present bound late
      cases failed.unique returned
  · intro succeeds
    obtain ⟨keepable, calls, takes, affords, rfl, rfl⟩ := succeeds
    exact returns_evaluate_of_takes keepable takes affords

/-- An evaluation fails where its threshold leaves no face, or where the limit
does not allow the draws that it would take. -/
theorem exists_returns_evaluate_error_iff {error : RollError} :
    (∃ after,
      Returns (evaluate · expression) context (.error error, after)) ↔
      (¬ expression.Keepable ∧
        error =
          .invalidThreshold expression.brutal expression.sides.val) ∨
      (expression.Keepable ∧
        ∃ limit,
          context.limit = some limit ∧ limit.toNat < UInt64.size - 1 ∧
            error = .tooManyDice limit ∧
            expression.Late context limit) := by
  constructor
  · intro failed
    obtain ⟨after, returned⟩ := failed
    by_cases keepable : expression.Keepable
    · obtain ⟨limit, present, bound, same⟩ :=
        exists_limit_of_returns_evaluate keepable returned
      refine Or.inr ⟨keepable, limit, present, bound, same, ?_⟩
      intro calls takes
      by_contra fits
      have affords := affords_of_le present (Nat.le_of_not_lt fits)
      have ended := returns_evaluate_of_takes keepable takes affords
      cases ended.unique returned
    · have ended :
          Returns (evaluate · expression) context
            (.error
              (.invalidThreshold expression.brutal expression.sides.val),
              context) :=
        returns_evaluate_of_not_keepable keepable
      cases ended.unique returned
      exact Or.inl ⟨keepable, rfl⟩
  · intro failure
    rcases failure with
      ⟨unkeepable, rfl⟩ | ⟨keepable, limit, present, bound, rfl, late⟩
    · exact ⟨context, returns_evaluate_of_not_keepable unkeepable⟩
    · exact exists_returns_evaluate_of_late keepable present bound late

end RollM

end DiceNotation
