import DiceNotation.Proofs.Budget
import DiceNotation.Proofs.Composition

/-!
# Processing without a limit

Without a limit and with a roller that keeps coming to the highest face of
every die, each expression with a usable threshold is rolled to its end
(`exists_rollsTo_of_keepable`). So the text alone decides whether processing
fails: it does so at the first expression whose threshold leaves no face, and
nothing is drawn for that one or those behind it
(`process_fails_at_threshold`).
-/

namespace DiceNotation

/-! ## Rollers that come to the highest face -/

namespace Roller

variable {σ : Type} [Roller σ] {source : σ}

/-- Wherever calls lead, every die comes to show its highest face. -/
def ShowsHighestFrom (source : σ) : Prop :=
  ∀ reached, Reachable source reached →
    ∀ sides : Positive, ∃ calls, face sides reached calls = sides.val

theorem ShowsHighestFrom.reached
    {reached : σ} (shows : ShowsHighestFrom source)
    (reachable : Reachable source reached) : ShowsHighestFrom reached :=
  fun other later => shows other (reachable.trans later)

theorem ShowsHighestFrom.exists_kept
    {sides : Positive} {brutal : UInt32} (shows : ShowsHighestFrom source)
    (someFace : brutal < sides.val) (count : Nat) :
    ∃ calls, count ≤ (kept sides source brutal calls).length := by
  induction count with
  | zero => exact ⟨0, Nat.zero_le _⟩
  | succ count inductionHypothesis =>
      obtain ⟨calls, enough⟩ := inductionHypothesis
      obtain ⟨more, highest⟩ :=
        shows _ (reachable_after sides source calls) sides
      have above : brutal < face sides source (calls + more) := by
        rw [face_add, highest]
        exact someFace
      have stillKept :
          (kept sides source brutal calls).length ≤
            (kept sides source brutal (calls + more)).length :=
        length_selected_mono _ _ _ (Nat.le_add_right calls more)
      refine ⟨calls + more + 1, ?_⟩
      rw [kept_succ_of_lt above, List.length_append, List.length_singleton]
      omega

theorem ShowsHighestFrom.exists_takes
    {expression : Expression} (shows : ShowsHighestFrom source)
    (keepable : expression.Keepable) :
    ∃ calls, expression.Takes source calls := by
  obtain ⟨calls, enough⟩ :=
    shows.exists_kept keepable expression.count.toNat
  obtain ⟨fewer, _, least⟩ := exists_isLeast enough
  exact ⟨fewer, least⟩

end Roller

/-- Behind the faces written on it, a tape shows the highest. -/
theorem FaceTape.exists_face_eq (sides : Positive) (tape : FaceTape) :
    ∃ calls, Roller.face sides tape calls = sides.val := by
  obtain ⟨ahead, draws⟩ := tape
  induction ahead generalizing draws with
  | nil => exact ⟨0, rfl⟩
  | cons face ahead inductionHypothesis =>
      obtain ⟨calls, highest⟩ := inductionHypothesis (draws + 1)
      refine ⟨1 + calls, ?_⟩
      rw [Roller.face_add]
      exact highest

namespace RollM

open Context

variable {σ : Type} [Roller σ] {context after : Context σ}
  {expression : Expression}

/-! ## Expressions with usable thresholds -/

theorem exists_returns_roll_of_keepable
    (unbounded : context.Unbounded)
    (shows : Roller.ShowsHighestFrom context.roller)
    (keepable : expression.Keepable) :
    ∃ rolled calls,
      Returns (roll · expression) context
        (.ok rolled, context.advanced expression.sides calls calls) := by
  obtain ⟨calls, takes⟩ := shows.exists_takes keepable
  have evaluated :=
    returns_evaluate_of_takes keepable takes (unbounded.affords calls)
  obtain ⟨rolled, returned, _⟩ :=
    exists_rolled_of_returns_evaluate evaluated
  exact ⟨rolled, calls, returned⟩

theorem exists_rollsTo_of_keepable
    {expressions : List Expression} (unbounded : context.Unbounded)
    (shows : Roller.ShowsHighestFrom context.roller)
    (keepable : ∀ expression ∈ expressions, expression.Keepable) :
    ∃ rolls after, RollsTo roll context expressions rolls after := by
  induction expressions generalizing context with
  | nil => exact ⟨[], context, RollsTo.nil context⟩
  | cons expression others inductionHypothesis =>
      obtain ⟨first, rest⟩ := List.forall_mem_cons.mp keepable
      obtain ⟨rolled, calls, returned⟩ :=
        exists_returns_roll_of_keepable unbounded shows first
      -- Drawing changes neither the limit nor what can still be reached.
      have stillUnbounded :
          (context.advanced expression.sides calls calls).Unbounded :=
        unbounded
      have stillShows :=
        shows.reached
          (Roller.reachable_after expression.sides context.roller calls)
      obtain ⟨rolls, after, later⟩ :=
        inductionHypothesis stillUnbounded stillShows rest
      exact ⟨rolled :: rolls, after, RollsTo.cons returned later⟩

theorem RollsTo.map_total
    {expressions : List Expression} {rolls : List Roll}
    (rolled : RollsTo roll context expressions rolls after) :
    RollsTo evaluate context expressions (rolls.map Roll.total) after := by
  induction rolled with
  | nil context => exact RollsTo.nil context
  | cons first rest inductionHypothesis =>
      have evaluated := first.map Roll.total
      simp only [map_total_roll] at evaluated
      exact RollsTo.cons evaluated inductionHypothesis

theorem exists_first_unkeepable
    {expressions : List Expression}
    (fails : ∃ expression ∈ expressions, ¬ expression.Keepable) :
    ∃ front failing back,
      expressions = front ++ failing :: back ∧
        (∀ expression ∈ front, expression.Keepable) ∧
        ¬ failing.Keepable := by
  have found :
      (expressions.find? fun expression => ¬ expression.Keepable).isSome :=
    List.find?_isSome.mpr (by simpa only [decide_eq_true_eq] using fails)
  obtain ⟨failing, same⟩ := Option.isSome_iff_exists.mp found
  obtain ⟨unkeepable, front, back, split, before⟩ :=
    List.find?_eq_some_iff_append.mp same
  refine ⟨front, failing, back, split, ?_, of_decide_eq_true unkeepable⟩
  intro expression member
  simpa using before expression member

/-! ## Texts -/

variable {source : Text}

theorem returns_processDetailed_of_mapM
    {result : Except RollError (List Roll)}
    (returned :
      Returns
        (fun attempts => (expressions source).mapM (roll attempts))
        context (result, after)) :
    Returns (processDetailed · source) context
      (result.map fun rolls =>
        (Processed.ofTotals source (rolls.map Roll.total), rolls),
        after) := by
  simp only [processDetailed, substitute_eq_map]
  exact returned.map _

theorem exists_returns_of_all_keepable
    (unbounded : context.Unbounded)
    (shows : Roller.ShowsHighestFrom context.roller)
    (keepable : ∀ expression ∈ expressions source, expression.Keepable) :
    ∃ processed rolls after,
      Returns (process · source) context (.ok processed, after) ∧
        Returns (processDetailed · source) context
          (.ok (processed, rolls), after) := by
  obtain ⟨rolls, after, rolled⟩ :=
    exists_rollsTo_of_keepable unbounded shows keepable
  have detailed :=
    returns_processDetailed_of_mapM
      ((returns_mapM steady_roll _ (.ok rolls)).mpr
        (Or.inl ⟨rolls, rolled, rfl⟩))
  exact
    ⟨_, rolls, after, returns_process_of_processDetailed detailed,
      detailed⟩

/-- The first expression without a usable threshold ends the processing in the
context to which those before it lead. -/
theorem exists_returns_of_first_unkeepable
    {front back : List Expression} {failing : Expression}
    (unbounded : context.Unbounded)
    (shows : Roller.ShowsHighestFrom context.roller)
    (split : expressions source = front ++ failing :: back)
    (keepable : ∀ expression ∈ front, expression.Keepable)
    (unkeepable : ¬ failing.Keepable) :
    ∃ totals rolls after,
      RollsTo evaluate context front totals after ∧
        RollsTo roll context front rolls after ∧
        Returns (process · source) context
          (.error
            (.invalidThreshold failing.brutal failing.sides.val),
            after) ∧
        Returns (processDetailed · source) context
          (.error
            (.invalidThreshold failing.brutal failing.sides.val),
            after) := by
  obtain ⟨rolls, after, rolled⟩ :=
    exists_rollsTo_of_keepable unbounded shows keepable
  have first :
      FirstFails roll context (expressions source)
        (.invalidThreshold failing.brutal failing.sides.val) after :=
    ⟨front, failing, back, rolls, after, split, rolled,
      returns_roll_of_not_keepable unkeepable⟩
  have detailed :=
    returns_processDetailed_of_mapM
      ((returns_mapM steady_roll _ (.error _)).mpr
        (Or.inr ⟨_, first, rfl⟩))
  exact
    ⟨rolls.map Roll.total, rolls, after, rolled.map_total, rolled,
      returns_process_of_processDetailed detailed, detailed⟩

/-- Without a limit and with a roller that keeps coming to the highest face,
processing always ends, with rolls or without, and fails if some expression in
the text has a threshold that leaves no face. The leftmost of these decides
the error, and the context is the one that the expressions before it leave. -/
theorem process_fails_at_threshold
    (unbounded : context.Unbounded)
    (shows : Roller.ShowsHighestFrom context.roller) (source : Text) :
    (∃ result detailed after,
      Returns (process · source) context (result, after) ∧
        Returns (processDetailed · source) context (detailed, after) ∧
        ((∃ error, result = .error error) ↔
          ∃ expression ∈ expressions source, ¬ expression.Keepable) ∧
        ((∃ error, detailed = .error error) ↔
          ∃ expression ∈ expressions source, ¬ expression.Keepable)) ∧
    ∀ front failing back,
      expressions source = front ++ failing :: back →
        (∀ expression ∈ front, expression.Keepable) →
          ¬ failing.Keepable →
            ∃ totals rolls after,
              RollsTo evaluate context front totals after ∧
                RollsTo roll context front rolls after ∧
                Returns (process · source) context
                  (.error
                    (.invalidThreshold failing.brutal failing.sides.val),
                    after) ∧
                Returns (processDetailed · source) context
                  (.error
                    (.invalidThreshold failing.brutal failing.sides.val),
                    after) := by
  constructor
  · by_cases fails :
        ∃ expression ∈ expressions source, ¬ expression.Keepable
    · obtain ⟨front, failing, back, split, keepable, unkeepable⟩ :=
        exists_first_unkeepable fails
      obtain ⟨_, _, after, _, _, processed, detailed⟩ :=
        exists_returns_of_first_unkeepable unbounded shows split keepable
          unkeepable
      exact
        ⟨_, _, after, processed, detailed,
          iff_of_true ⟨_, rfl⟩ fails, iff_of_true ⟨_, rfl⟩ fails⟩
    · have keepable :
          ∀ expression ∈ expressions source, expression.Keepable := by
        intro expression member
        by_contra unkeepable
        exact fails ⟨expression, member, unkeepable⟩
      obtain ⟨text, rolls, after, processed, detailed⟩ :=
        exists_returns_of_all_keepable unbounded shows keepable
      exact
        ⟨.ok text, .ok (text, rolls), after, processed, detailed,
          iff_of_false nofun fails, iff_of_false nofun fails⟩
  · intro front failing back split keepable unkeepable
    exact
      exists_returns_of_first_unkeepable unbounded shows split keepable
        unkeepable

/-- In `d6b1, d4b4 or d6b9` the first die is rolled again once, and the second
cannot be rolled. -/
theorem process_stops_at_second :
    let source : Text := "d6b1, d4b4 or d6b9".toList
    let context : Context FaceTape := Context.unlimited ⟨[1, 5], 0⟩
    let first : Expression := ⟨.one, ⟨6, by decide⟩, 0, 1⟩
    context.Unbounded ∧ Roller.ShowsHighestFrom context.roller ∧
      ∃ totals after,
        RollsTo evaluate context [first] totals after ∧
          Returns (process · source) context
            (.error (.invalidThreshold 4 4), after) := by
  intro source context first
  have found :
      expressions source =
        [first] ++ ⟨.one, ⟨4, by decide⟩, 0, 4⟩ ::
          [⟨.one, ⟨6, by decide⟩, 0, 9⟩] := by
    decide +kernel
  have unbounded : context.Unbounded := nofun
  have shows : Roller.ShowsHighestFrom context.roller :=
    fun reached _ sides => reached.exists_face_eq sides
  obtain ⟨totals, _, after, evaluated, _, processed, _⟩ :=
    (process_fails_at_threshold unbounded shows source).2 _ _ _ found
      (by decide) (by decide)
  exact ⟨unbounded, shows, totals, after, evaluated, processed⟩

end RollM

end DiceNotation
