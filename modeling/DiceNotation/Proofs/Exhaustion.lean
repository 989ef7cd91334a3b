import DiceNotation.Proofs.Counting
import DiceNotation.Proofs.Processing
import DiceNotation.Proofs.Recording
import DiceNotation.Proofs.Runs
import DiceNotation.Roller.Tape

/-!
# Exceeded limits

Once more dice have been counted than the limit allows, nothing is drawn any
more until the next reset. Expressions are refused, each with the error that
its threshold decides, and what is refused may still be counted
(`Step.runIn_perform_of_exhausted`). Too many dice are reported only where the
limit is exceeded (`Step.exhausted_of_runIn_perform`), so it is enough that an
outcome says so.
-/

namespace DiceNotation

/-! ## Contexts with an exceeded limit -/

namespace Context

variable {σ : Type} {context : Context σ} {limit : UInt64}

/-- More dice have been counted than the limit allows. -/
structure Exhausted (limit : UInt64) (context : Context σ) : Prop where
  limited : context.limit = some limit
  exceeded : limit < context.rolled

theorem excess?_eq_some_iff {error : RollError} :
    context.excess? = some error ↔
      ∃ limit, error = .tooManyDice limit ∧ context.Exhausted limit := by
  rw [excess?]
  cases present : context.limit with
  | none =>
      constructor
      · intro impossible
        contradiction
      · intro exhausted
        obtain ⟨limit, _, limited, _⟩ := exhausted
        rw [present] at limited
        contradiction
  | some limit =>
      constructor
      · intro excess
        simp only [Option.ite_none_right_eq_some, Option.some.injEq]
        at excess
        exact ⟨limit, excess.2.symm, present, excess.1⟩
      · intro exhausted
        obtain ⟨other, same, limited, exceeded⟩ := exhausted
        rw [present, Option.some.injEq] at limited
        subst limited same
        exact if_pos exceeded

theorem le_addCapped (word : UInt64) (amount : Nat) :
    word ≤ addCapped word amount := by
  have small := word.toNat_lt_size
  rw [UInt64.le_iff_toNat_le, toNat_addCapped]
  omega

theorem count_zero (context : Context σ) : context.count 0 = context := by
  rw [count, addCapped_zero]

theorem Exhausted.count
    (exhausted : context.Exhausted limit) (amount : Nat) :
    (context.count amount).Exhausted limit where
  limited := exhausted.limited
  exceeded :=
    UInt64.lt_of_lt_of_le exhausted.exceeded
      (le_addCapped context.rolled amount)

theorem Exhausted.excess?_count
    (exhausted : context.Exhausted limit) (amount : Nat) :
    (context.count amount).excess? = some (.tooManyDice limit) :=
  excess?_eq_some_iff.mpr ⟨limit, rfl, exhausted.count amount⟩

end Context

/-! ## What is refused -/

namespace Expression

/-- The error when no more dice are allowed. The threshold is checked
first. -/
def refusal (limit : UInt64) (expression : Expression) : RollError :=
  if expression.Keepable then
    .tooManyDice limit
  else
    .invalidThreshold expression.brutal expression.sides.val

/-- The dice that are counted although they are not rolled. -/
def counted (expression : Expression) : Nat :=
  if expression.Keepable then expression.count.toNat else 0

end Expression

namespace Step

/-- The outcome when no more dice are allowed. A text is refused for the first
of its expressions, and it comes back untouched if it has none. -/
def refusal (limit : UInt64) : Step → Outcome
  | evaluate expression => .error (expression.refusal limit)
  | roll expression => .error (expression.refusal limit)
  | process source =>
      match expressions source with
      | [] => .ok (.text (.untouched source))
      | first :: _ => .error (first.refusal limit)
  | processDetailed source =>
      match expressions source with
      | [] => .ok (.detailed (.untouched source) [])
      | first :: _ => .error (first.refusal limit)
  | reset => .ok .done

/-- The dice that a step counts although they are not rolled. -/
def counted : Step → Nat
  | evaluate expression => expression.counted
  | roll expression => expression.counted
  | process source =>
      ((expressions source).head?.map Expression.counted).getD 0
  | processDetailed source =>
      ((expressions source).head?.map Expression.counted).getD 0
  | reset => 0

/-- The numbers of dice counted after each of the steps. -/
def countsFrom (rolled : UInt64) : List Step → List UInt64
  | [] => []
  | step :: steps =>
      Context.addCapped rolled step.counted ::
        countsFrom (Context.addCapped rolled step.counted) steps

/-- The refusals of steps, with the contexts after them: the roller is the
same throughout. -/
def refusals {σ : Type} (limit rolled : UInt64) (roller : σ)
    (steps : List Step) : List (Outcome × Context σ) :=
  List.zipWith
    (fun step counted => (step.refusal limit, ⟨some limit, counted, roller⟩))
    steps (countsFrom rolled steps)

end Step

/-! ## Reports of too many dice -/

namespace RollM

open Context

variable {σ α β : Type}

/-- Where the action ends with too many dice, the limit is exceeded. -/
def Reports (action : RollM σ α) : Prop :=
  ∀ context limit after,
    runIn context action = some (.error (.tooManyDice limit), after) →
      after.Exhausted limit

theorem reports_of_ok
    {action : RollM σ α}
    (ends :
      ∀ context, ∃ value after,
        runIn context action = some (.ok value, after)) :
    Reports action := by
  intro context limit after failed
  obtain ⟨value, reached, ended⟩ := ends context
  rw [ended] at failed
  cases failed

theorem Reports.bind
    {action : RollM σ α} {next : α → RollM σ β} (first : Reports action)
    (second : ∀ value, Reports (next value)) :
    Reports (action >>= next) := by
  intro context limit after failed
  rcases runIn_bind_eq_some_iff.mp failed with
    ⟨value, between, _, later⟩ | ⟨error, begun, same⟩
  · exact second value between limit after later
  · cases same
    exact first context limit after begun

theorem reports_charge (amount : Nat) :
    Reports (charge amount : RollM σ Unit) := by
  intro context limit after failed
  rw [runIn_charge] at failed
  cases excess : (context.count amount).excess? with
  | none =>
      rw [excess] at failed
      cases failed
  | some error =>
      rw [excess] at failed
      cases failed
      obtain ⟨other, same, exhausted⟩ := excess?_eq_some_iff.mp excess
      cases same
      exact exhausted

theorem parametric_reports [Roller σ] :
    Parametric (σ := σ) (τ := σ) fun action _ => Reports action where
  related_pure value :=
    reports_of_ok fun context => ⟨value, context, runIn_pure context value⟩
  related_bind := Reports.bind
  related_throw brutal sides := by
    intro context limit after failed
    rw [runIn_throw] at failed
    cases failed
  related_unfinished := by
    intro α context limit after failed
    rw [runIn_unfinished] at failed
    contradiction
  related_charge := reports_charge
  related_draw sides :=
    reports_of_ok fun context => ⟨_, _, runIn_draw context sides⟩
  related_reset :=
    reports_of_ok fun context => ⟨_, _, runIn_reset context⟩

/-! ## Refusals of single actions -/

section

variable [Roller σ] {context : Context σ} {limit : UInt64}
  (exhausted : context.Exhausted limit) (attempts : Nat)
include exhausted

theorem runIn_roll_of_exhausted (expression : Expression) :
    runIn context (roll attempts expression) =
      some
        (.error (expression.refusal limit),
          context.count expression.counted) := by
  rw [Expression.refusal, Expression.counted]
  by_cases keepable : expression.Keepable
  · simp only [roll, checkThreshold, if_pos keepable, pure_bind,
      runIn_bind, runIn_charge, exhausted.excess?_count]
  · rw [if_neg keepable, if_neg keepable, count_zero, roll,
      checkThreshold, if_neg keepable, runIn_bind, runIn_throw]

theorem runIn_evaluate_of_exhausted (expression : Expression) :
    runIn context (evaluate attempts expression) =
      some
        (.error (expression.refusal limit),
          context.count expression.counted) := by
  rw [← map_total_roll, runIn_map,
    runIn_roll_of_exhausted exhausted attempts]
  rfl

/-- A text without expressions is not affected by the limit, and for any other
the first expression decides. -/
theorem runIn_processDetailed_of_exhausted (source : Text) :
    runIn context (processDetailed attempts source) =
      match expressions source with
      | [] => some (.ok (.untouched source, []), context)
      | first :: _ =>
          some
            (.error (first.refusal limit),
              context.count first.counted) := by
  rw [processDetailed, substitute_eq]
  by_cases nothing : occurrences source = []
  · have noExpressions : expressions source = [] := by
      rw [expressions, nothing, List.map_nil]
    rw [if_pos nothing, noExpressions, runIn_pure]
  · obtain ⟨first, others, found⟩ :=
      List.exists_cons_of_ne_nil (mt List.map_eq_nil_iff.mp nothing)
    have inText : expressions source = first :: others := found
    rw [if_neg nothing, inText, runIn_map, List.mapM_cons, runIn_bind,
      runIn_roll_of_exhausted exhausted attempts]
    rfl

theorem runIn_process_of_exhausted (source : Text) :
    runIn context (process attempts source) =
      match expressions source with
      | [] => some (.ok (.untouched source), context)
      | first :: _ =>
          some
            (.error (first.refusal limit),
              context.count first.counted) := by
  rw [← map_fst_processDetailed, runIn_map,
    runIn_processDetailed_of_exhausted exhausted attempts]
  cases expressions source with
  | nil => rfl
  | cons first others => rfl

end

end RollM

/-! ## Steps and runs -/

namespace Step

open Context RollM

variable {σ : Type} [Roller σ] {context : Context σ} {limit : UInt64}

theorem exhausted_of_runIn_perform
    {attempts : Nat} {step : Step} {after : Context σ}
    (failed :
      (step.perform attempts).runIn context =
        some (.error (.tooManyDice limit), after)) :
    after.Exhausted limit :=
  parametric_perform parametric_reports attempts step context limit after
    failed

/-- Where the limit is exceeded, a step draws nothing and is refused. -/
theorem runIn_perform_of_exhausted
    (exhausted : context.Exhausted limit) (attempts : Nat) {step : Step}
    (noReset : step ≠ .reset) :
    (step.perform attempts).runIn context =
      some (step.refusal limit, context.count step.counted) := by
  cases step with
  | evaluate expression =>
      rw [perform, runIn_bind,
        runIn_evaluate_of_exhausted exhausted attempts]
      rfl
  | roll expression =>
      rw [perform, runIn_bind, runIn_roll_of_exhausted exhausted attempts]
      rfl
  | process source =>
      rw [perform, runIn_bind,
        runIn_process_of_exhausted exhausted attempts, refusal, counted]
      cases expressions source with
      | nil =>
          rw [List.head?_nil, Option.map_none, Option.getD_none, count_zero]
          rfl
      | cons first others => rfl
  | processDetailed source =>
      rw [perform, runIn_bind,
        runIn_processDetailed_of_exhausted exhausted attempts, refusal,
        counted]
      cases expressions source with
      | nil =>
          rw [List.head?_nil, Option.map_none, Option.getD_none, count_zero]
          rfl
      | cons first others => rfl
  | reset => contradiction

theorem RunsTo.stays_exhausted
    {steps : List Step} {outcomes : List Outcome} {after : Context σ}
    (runs : RunsTo steps context outcomes after) (noReset : .reset ∉ steps)
    (exhausted : context.Exhausted limit) : after.Exhausted limit := by
  induction steps generalizing context outcomes with
  | nil =>
      obtain ⟨_, same⟩ := runsTo_nil.mp runs
      rw [same]
      exact exhausted
  | cons step steps inductionHypothesis =>
      obtain ⟨outcome, between, others, returned, later, _⟩ :=
        runsTo_cons.mp runs
      have different := (List.ne_of_not_mem_cons noReset).symm
      have refused :
          Returns (step.perform ·) context
            (step.refusal limit, context.count step.counted) :=
        ⟨0, fun attempts _ =>
          runIn_perform_of_exhausted exhausted attempts different⟩
      cases refused.unique returned
      exact
        inductionHypothesis later (List.not_mem_of_not_mem_cons noReset)
          (exhausted.count step.counted)

/-- A run without resets that has reported too many dice has exceeded the
limit. -/
theorem RunsTo.exhausted
    {steps : List Step} {outcomes : List Outcome} {after : Context σ}
    (runs : RunsTo steps context outcomes after) (noReset : .reset ∉ steps)
    (reported : .error (.tooManyDice limit) ∈ outcomes) :
    after.Exhausted limit := by
  induction steps generalizing context outcomes with
  | nil =>
      obtain ⟨nothing, _⟩ := runsTo_nil.mp runs
      rw [nothing] at reported
      contradiction
  | cons step steps inductionHypothesis =>
      obtain ⟨outcome, between, others, returned, later, same⟩ :=
        runsTo_cons.mp runs
      have noLaterReset := List.not_mem_of_not_mem_cons noReset
      rw [same] at reported
      rcases List.mem_cons.mp reported with now | behind
      · obtain ⟨enough, ends⟩ := returned
        have failed := ends enough (Nat.le_refl _)
        rw [← now] at failed
        exact
          later.stays_exhausted noLaterReset
            (exhausted_of_runIn_perform failed)
      · exact inductionHypothesis later noLaterReset behind

theorem pairwise_countsFrom (rolled : UInt64) (steps : List Step) :
    (rolled :: countsFrom rolled steps).Pairwise (· ≤ ·) := by
  induction steps generalizing rolled with
  | nil => exact List.pairwise_singleton _ rolled
  | cons step steps inductionHypothesis =>
      have first := le_addCapped rolled step.counted
      have later := inductionHypothesis (addCapped rolled step.counted)
      apply List.Pairwise.cons
      · intro counted member
        rcases List.mem_cons.mp member with same | behind
        · rw [same]
          exact first
        · exact
            UInt64.le_trans first (List.rel_of_pairwise_cons later behind)
      · exact later

/-- A run from an exceeded limit on is a run of refusals, whatever follows
it. -/
theorem performAll_of_exhausted
    (exhausted : context.Exhausted limit) (attempts : Nat)
    {later : List Step} (noReset : .reset ∉ later) (more : List Step) :
    performAll attempts (later ++ more) context =
      (performAll attempts more
          ⟨some limit,
            (countsFrom context.rolled later).getLastD context.rolled,
            context.roller⟩).map
        (refusals limit context.rolled context.roller later ++ ·) := by
  induction later generalizing context with
  | nil =>
      have unchanged :
          (⟨some limit, context.rolled, context.roller⟩ : Context σ) =
            context := by
        rw [← exhausted.limited]
      rw [List.nil_append, countsFrom, List.getLastD_nil, unchanged]
      exact Option.map_id'.symm
  | cons step later inductionHypothesis =>
      have different := (List.ne_of_not_mem_cons noReset).symm
      have noLaterReset := List.not_mem_of_not_mem_cons noReset
      have counted := exhausted.count step.counted
      have reached :
          context.count step.counted =
            ⟨some limit, addCapped context.rolled step.counted,
              context.roller⟩ := by
        rw [Context.count, exhausted.limited]
      rw [List.cons_append, performAll,
        runIn_perform_of_exhausted exhausted attempts different,
        Option.bind_eq_bind, Option.bind_some,
        inductionHypothesis counted noLaterReset, countsFrom,
        List.getLastD_cons, reached]
      simp only [Option.bind_eq_bind, Option.bind_map]
      rw [Option.map_eq_bind]
      rfl

theorem performAll_reset
    (attempts : Nat) (steps : List Step) (context : Context σ) :
    performAll attempts (.reset :: steps) context =
      (performAll attempts steps { context with rolled := 0 }).map
        ((.ok .done, { context with rolled := 0 }) :: ·) := by
  have performed :
      (Step.reset.perform attempts).runIn context =
        some (.ok .done, { context with rolled := 0 }) :=
    rfl
  rw [performAll, performed, Option.bind_eq_bind, Option.bind_some]
  cases performAll attempts steps { context with rolled := 0 } with
  | none => rfl
  | some results => rfl

/-- When a step since the last reset has reported too many dice, no step makes
a call of the roller any more: each is refused, and the count of dice stays
above the limit and never falls. After a reset the steps do what they do in a
new context with the roller as it is. -/
theorem refused_until_reset
    {start exhausted : Context σ} {since : List Step}
    {outcomes : List Outcome}
    (runs : RunsTo since start outcomes exhausted)
    (noReset : .reset ∉ since)
    (reported : .error (.tooManyDice limit) ∈ outcomes)
    {later : List Step} (noLaterReset : .reset ∉ later) :
    let counts := countsFrom exhausted.rolled later
    (exhausted.rolled :: counts).Pairwise (· ≤ ·) ∧
      (∀ counted ∈ exhausted.rolled :: counts, limit < counted) ∧
      ∀ attempts,
        performAll attempts later exhausted =
            some
              (refusals limit exhausted.rolled exhausted.roller later) ∧
          performAll attempts later (exhausted.map Recorded.start) =
            some
              (refusals limit exhausted.rolled
                (Recorded.start exhausted.roller) later) ∧
          ∀ steps,
            performAll attempts (later ++ .reset :: steps) exhausted =
              (performAll attempts steps
                  (limited limit exhausted.roller)).map
                fun results =>
                  refusals limit exhausted.rolled exhausted.roller later ++
                    (.ok .done, limited limit exhausted.roller) ::
                      results := by
  have exceeded := runs.exhausted noReset reported
  have monotone := pairwise_countsFrom exhausted.rolled later
  refine ⟨monotone, ?_, ?_⟩
  · intro counted member
    rcases List.mem_cons.mp member with same | behind
    · rw [same]
      exact exceeded.exceeded
    · exact
        UInt64.lt_of_lt_of_le exceeded.exceeded
          (List.rel_of_pairwise_cons monotone behind)
  · intro attempts
    have recorded : (exhausted.map Recorded.start).Exhausted limit :=
      ⟨exceeded.limited, exceeded.exceeded⟩
    have plainRun :=
      performAll_of_exhausted exceeded attempts noLaterReset []
    have recordedRun :=
      performAll_of_exhausted recorded attempts noLaterReset []
    rw [List.append_nil, performAll, Option.map_some, List.append_nil]
      at plainRun recordedRun
    refine ⟨plainRun, recordedRun, ?_⟩
    intro steps
    rw [performAll_of_exhausted exceeded attempts noLaterReset,
      performAll_reset, Option.map_map]
    rfl

/-- With a limit of three, `2d6` can be rolled once. After the second attempt
nothing is rolled, not even for the text, and `d6b6` has an error of its
own. -/
theorem refused_behind_second_roll :
    let six : Positive := ⟨6, by decide⟩
    let twice : Expression := ⟨⟨2, by decide⟩, six, 0, 0⟩
    let brutal : Expression := ⟨.one, six, 0, 6⟩
    let exhausted : Context FaceTape := ⟨some 3, 4, ⟨[5], 2⟩⟩
    RunsTo [.evaluate twice, .evaluate twice]
        (limited 3 (⟨[1, 6, 5], 0⟩ : FaceTape))
        [.ok (.total 7), .error (.tooManyDice 3)] exhausted ∧
      ∀ attempts,
        performAll attempts
            [.roll twice, .evaluate brutal, .process "a d4".toList,
              .process "none".toList]
            exhausted =
          some
            [(.error (.tooManyDice 3), ⟨some 3, 6, ⟨[5], 2⟩⟩),
              (.error (.invalidThreshold 6 6), ⟨some 3, 6, ⟨[5], 2⟩⟩),
              (.error (.tooManyDice 3), ⟨some 3, 7, ⟨[5], 2⟩⟩),
              (.ok (.text (.untouched "none".toList)),
                ⟨some 3, 7, ⟨[5], 2⟩⟩)] := by
  let six : Positive := ⟨6, by decide⟩
  let twice : Expression := ⟨⟨2, by decide⟩, six, 0, 0⟩
  let brutal : Expression := ⟨.one, six, 0, 6⟩
  let exhausted : Context FaceTape := ⟨some 3, 4, ⟨[5], 2⟩⟩
  have runs :
      RunsTo [.evaluate twice, .evaluate twice]
        (limited 3 (⟨[1, 6, 5], 0⟩ : FaceTape))
        [.ok (.total 7), .error (.tooManyDice 3)] exhausted := by
    refine
      ⟨[(.ok (.total 7), ⟨some 3, 2, ⟨[5], 2⟩⟩),
        (.error (.tooManyDice 3), exhausted)], 1, ?_, rfl, rfl⟩
    intro attempts le
    obtain ⟨extra, rfl⟩ := Nat.exists_eq_add_of_le' le
    rfl
  have reported :
      (.error (.tooManyDice 3) : Outcome) ∈
        [.ok (.total 7), .error (.tooManyDice 3)] := by
    simp
  have noLaterReset :
      Step.reset ∉
        [.roll twice, .evaluate brutal, .process "a d4".toList,
          .process "none".toList] := by
    simp
  have inText :
      expressions "a d4".toList = [⟨.one, ⟨4, by decide⟩, 0, 0⟩] := by
    decide +kernel
  have inOther : expressions "none".toList = [] := by
    decide +kernel
  refine ⟨runs, fun attempts => ?_⟩
  have refused :=
    (refused_until_reset runs (by simp) reported noLaterReset).2.2 attempts
  refine refused.1.trans ?_
  simp only [refusals, countsFrom, List.zipWith_cons_cons, refusal, counted,
    inText, inOther]
  rfl

end Step

end DiceNotation
