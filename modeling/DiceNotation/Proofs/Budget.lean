import DiceNotation.Proofs.Evaluation
import DiceNotation.Proofs.Processing
import DiceNotation.Proofs.Runs
import DiceNotation.Roller.Tape

/-!
# Limits and draws

Dice are counted before they are drawn, and a count beyond the limit stays. So
the count may exceed the limit while the draws never do. While the limit is
kept, the dice that are counted are those that have been drawn and those that
are still owed (`Context.Owes`). Once it is exceeded, nothing is drawn any
more (`Context.Overcounted`). Every action leads from one of these to one of
them (`RollM.Accountable`).
-/

namespace DiceNotation

variable {σ : Type} {limit : UInt64} {base : List (Positive × UInt32)}

namespace Context

/-- The limit is kept. The dice counted are the calls since the record was
`base` and `owed` dice that are still to be drawn. -/
structure Owes (limit : UInt64) (base : List (Positive × UInt32))
    (owed : Nat) (context : Context (Recorded σ)) : Prop where
  limited : context.limit = some limit
  kept : context.rolled.toNat ≤ limit.toNat
  drawn :
    ∃ calls,
      context.roller.calls = base ++ calls ∧
        calls.length + owed = context.rolled.toNat

/-- More dice than the limit allows have been counted, but no more have been
drawn since the record was `base`. -/
structure Overcounted (limit : UInt64) (base : List (Positive × UInt32))
    (context : Context (Recorded σ)) : Prop where
  limited : context.limit = some limit
  exceeded : limit.toNat < context.rolled.toNat
  drawn :
    ∃ calls,
      context.roller.calls = base ++ calls ∧ calls.length ≤ limit.toNat

variable {owed : Nat} {context : Context (Recorded σ)}

theorem owes_start (source : σ) :
    (limited limit (Recorded.start source)).Owes limit [] 0 where
  limited := rfl
  kept := Nat.zero_le _
  drawn := ⟨[], rfl, rfl⟩

theorem Owes.draw
    [Roller σ] (owes : context.Owes limit base (owed + 1))
    (sides : Positive) : (context.drawn sides).Owes limit base owed := by
  obtain ⟨calls, record, total⟩ := owes.drawn
  refine
    ⟨owes.limited, owes.kept, calls ++ [(sides, context.shown sides)],
      ?_, ?_⟩
  · have longer :
        (context.drawn sides).roller.calls =
          context.roller.calls ++ [(sides, context.shown sides)] :=
      rfl
    rw [longer, record, List.append_assoc]
  · have sameCount : (context.drawn sides).rolled = context.rolled := rfl
    rw [List.length_append, List.length_singleton, sameCount, ← total]
    omega

theorem Owes.count_of_le
    (owes : context.Owes limit base owed) {amount : Nat}
    (fits : context.rolled.toNat + amount ≤ limit.toNat) :
    (context.count amount).Owes limit base (owed + amount) ∧
      (context.count amount).rolled.toNat =
        context.rolled.toNat + amount := by
  have counted := toNat_rolled_count_of_le fits
  obtain ⟨calls, record, total⟩ := owes.drawn
  refine ⟨⟨owes.limited, ?_, calls, record, ?_⟩, counted⟩
  · rw [counted]
    exact fits
  · rw [counted, ← total]
    omega

theorem overcounted_count
    (limited : context.limit = some limit)
    (bound : limit.toNat < UInt64.size - 1) {amount : Nat}
    (excess : limit.toNat < context.rolled.toNat + amount)
    (drawn :
      ∃ calls,
        context.roller.calls = base ++ calls ∧
          calls.length ≤ limit.toNat) :
    (context.count amount).Overcounted limit base := by
  refine ⟨limited, ?_, drawn⟩
  have capped := toNat_addCapped context.rolled amount
  rw [count, capped]
  omega

/-- Counting more dice keeps the limit or exceeds it. -/
theorem Owes.count
    (owes : context.Owes limit base owed)
    (bound : limit.toNat < UInt64.size - 1) (amount : Nat) :
    ((context.count amount).excess? = none ∧
        (context.count amount).Owes limit base (owed + amount) ∧
        (context.count amount).rolled.toNat =
          context.rolled.toNat + amount) ∨
      (context.count amount).excess? = some (.tooManyDice limit) ∧
        (context.count amount).Overcounted limit base := by
  by_cases fits : context.rolled.toNat + amount ≤ limit.toNat
  · have affords : (context.count amount).excess? = none :=
      affords_of_le owes.limited fits
    exact Or.inl ⟨affords, owes.count_of_le fits⟩
  · have excess : limit.toNat < context.rolled.toNat + amount :=
      Nat.lt_of_not_le fits
    obtain ⟨calls, record, total⟩ := owes.drawn
    have fewCalls : calls.length ≤ limit.toNat := by
      have kept := owes.kept
      omega
    exact
      Or.inr
        ⟨excess?_count_of_lt owes.limited bound excess,
          overcounted_count owes.limited bound excess
            ⟨calls, record, fewCalls⟩⟩

theorem Overcounted.count
    (overcounted : context.Overcounted limit base)
    (bound : limit.toNat < UInt64.size - 1) (amount : Nat) :
    (context.count amount).excess? = some (.tooManyDice limit) ∧
      (context.count amount).Overcounted limit base := by
  have excess : limit.toNat < context.rolled.toNat + amount :=
    Nat.lt_of_lt_of_le overcounted.exceeded (Nat.le_add_right _ _)
  exact
    ⟨excess?_count_of_lt overcounted.limited bound excess,
      overcounted_count overcounted.limited bound excess
        overcounted.drawn⟩

/-- Whether the limit has been exceeded. Between actions no dice are owed. -/
def Stands (limit : UInt64) (base : List (Positive × UInt32)) :
    Bool → Context (Recorded σ) → Prop
  | false, context => context.Owes limit base 0
  | true, context => context.Overcounted limit base

theorem Stands.limited
    {exceeded : Bool} (stands : Stands limit base exceeded context) :
    context.limit = some limit := by
  cases exceeded with
  | false => exact Owes.limited stands
  | true => exact Overcounted.limited stands

theorem Stands.exists_calls
    {exceeded : Bool}
    (stands : Stands limit base exceeded context) :
    ∃ calls,
      context.roller.calls = base ++ calls ∧
        calls.length ≤ limit.toNat ∧
        calls.length ≤ context.rolled.toNat ∧
        (exceeded = false → calls.length = context.rolled.toNat) ∧
        (context.rolled ≤ limit ↔ exceeded = false) := by
  cases exceeded with
  | false =>
      obtain ⟨calls, record, total⟩ := Owes.drawn stands
      have kept := Owes.kept stands
      refine ⟨calls, record, by omega, by omega, fun _ => total, ?_⟩
      simpa only [UInt64.le_iff_toNat_le, iff_true] using kept
  | true =>
      obtain ⟨calls, record, few⟩ := Overcounted.drawn stands
      have exceeded := Overcounted.exceeded stands
      refine ⟨calls, record, few, by omega, nofun, ?_⟩
      simpa only [UInt64.le_iff_toNat_le, reduceCtorEq, iff_false,
        Nat.not_le] using exceeded

end Context

namespace RollM

open Context

variable {α β : Type}

/-- What has become of `owed` dice when a result is reached: either they are
still owed, or too many dice have been counted. -/
def Books (limit : UInt64) (base : List (Positive × UInt32)) (owed : Nat) :
    Except RollError α → Context (Recorded σ) → Prop
  | .ok _, context => context.Owes limit base owed
  | .error error, context =>
      error = .tooManyDice limit ∧ context.Overcounted limit base

/-- The result is the error that too many dice have been counted. -/
def exceeds : Except RollError α → Bool
  | .ok _ => false
  | .error (.tooManyDice _) => true
  | .error (.invalidThreshold _ _) => false

/-- The action keeps account of the limit `limit`: it returns, it exceeds the
limit only if it says so, and once the limit is exceeded it draws nothing. -/
def Accountable (limit : UInt64) (action : Nat → RollM (Recorded σ) α) :
    Prop :=
  ∀ base exceeded,
    Ensures (Stands limit base exceeded) action fun result =>
      Stands limit base (exceeded || exceeds result)

theorem exceeds_eq_true_iff {result : Except RollError α} :
    exceeds result = true ↔ ∃ limit, result = .error (.tooManyDice limit) := by
  rcases result with (other | ⟨brutal, sides⟩) | value
  · simp [exceeds]
  · simp [exceeds]
  · simp [exceeds]

theorem exceeds_map (change : α → β) (result : Except RollError α) :
    exceeds (result.map change) = exceeds result := by
  cases result with
  | error error => cases error <;> rfl
  | ok value => rfl

/-! ## Accounts of composed actions -/

section

variable {action : Nat → RollM (Recorded σ) α}

theorem accountable_pure (value : α) :
    Accountable (σ := σ) limit fun _ => pure value := by
  intro base exceeded context stands
  refine ⟨.ok value, context, (returns_const _).mpr rfl, ?_⟩
  simpa only [exceeds, Bool.or_false] using stands

theorem Accountable.bind
    {next : Nat → α → RollM (Recorded σ) β}
    (first : Accountable limit action)
    (second : ∀ value, Accountable limit (next · value)) :
    Accountable limit fun attempts => action attempts >>= next attempts := by
  intro base exceeded
  apply (first base exceeded).bind
  · intro value
    simp only [exceeds, Bool.or_false]
    exact second value base exceeded
  · intro error context stands
    cases error with
    | tooManyDice other => exact stands
    | invalidThreshold brutal sides => exact stands

theorem sequential_accountable :
    Sequential (σ := Recorded σ) fun action =>
      Accountable limit action where
  holds_pure := accountable_pure
  holds_bind := Accountable.bind

end

/-! ## How a roll ends -/

section

variable [Roller σ] {context after : Context σ} {expression : Expression}

theorem returns_roll_of_not_keepable
    (unkeepable : ¬ expression.Keepable) :
    Returns (roll · expression) context
      (.error
        (.invalidThreshold expression.brutal expression.sides.val),
        context) := by
  refine ⟨0, ?_⟩
  intro attempts _
  simp only [roll, checkThreshold, if_neg unkeepable, runIn_bind,
    runIn_throw]

theorem returns_roll_of_excess
    {error : RollError} (keepable : expression.Keepable)
    (excess :
      (context.count expression.count.toNat).excess? = some error) :
    Returns (roll · expression) context
      (.error error, context.count expression.count.toNat) := by
  refine ⟨0, ?_⟩
  intro attempts _
  simp only [roll, checkThreshold, if_pos keepable, pure_bind, runIn_bind,
    runIn_charge, excess]

theorem returns_roll_of_affords
    {result : Except RollError (List Die)}
    (keepable : expression.Keepable)
    (affords : (context.count expression.count.toNat).excess? = none)
    (returned :
      Returns
        (collectDice · expression.sides expression.brutal
          expression.count.toNat [])
        (context.count expression.count.toNat) (result, after)) :
    Returns (roll · expression) context
      (result.map (Roll.mk expression), after) := by
  obtain ⟨enough, ends⟩ := returned
  refine ⟨enough, ?_⟩
  intro attempts le
  simp only [roll, checkThreshold, if_pos keepable, pure_bind, runIn_bind,
    runIn_charge, affords, ends attempts le]
  cases result with
  | error error => rfl
  | ok dice => rfl

end

/-! ## Accounts of rolling -/

section

variable [Roller σ] (bound : limit.toNat < UInt64.size - 1)
include bound

/-- One die that is owed is drawn, however often it is rolled again. -/
theorem ensures_keepFace
    (sides : Positive) (brutal : UInt32) (reject : β → UInt32 → β)
    (owed : Nat) (gathered : β) :
    Ensures (σ := Recorded σ) (Owes limit base (owed + 1))
      (keepFace sides brutal reject · gathered) (Books limit base owed) := by
  intro context owes
  -- Every rejected face is counted, which leaves less room below the limit.
  induction room : limit.toNat - context.rolled.toNat using
      Nat.strongRecOn generalizing context gathered with
  | ind room inductionHypothesis =>
      have owesDrawn := owes.draw sides
      by_cases above : brutal < context.shown sides
      · exact
          ⟨.ok (gathered, context.shown sides), context.drawn sides,
            (returns_keepFace_of_lt above).mpr rfl, owesDrawn⟩
      · have below := UInt32.not_lt.mp above
        rcases owesDrawn.count bound 1 with
          ⟨affords, owesAgain, counted⟩ | ⟨excess, overcounted⟩
        · have sameCount :
              (context.drawn sides).rolled = context.rolled :=
            rfl
          rw [sameCount] at counted
          have kept := owesAgain.kept
          obtain ⟨result, after, returned, books⟩ :=
            inductionHypothesis
              (limit.toNat -
                ((context.drawn sides).count 1).rolled.toNat)
              (by omega) (reject gathered (context.shown sides))
              ((context.drawn sides).count 1) owesAgain rfl
          exact
            ⟨result, after,
              (returns_keepFace_of_le below affords).mpr returned, books⟩
        · exact
            ⟨.error (.tooManyDice limit),
              (context.drawn sides).count 1,
              returns_keepFace_of_excess below excess, rfl, overcounted⟩

theorem ensures_collectDice
    (sides : Positive) (brutal : UInt32) (count : Nat) (dice : List Die) :
    Ensures (σ := Recorded σ) (Owes limit base count)
      (collectDice · sides brutal count dice) (Books limit base 0) := by
  induction count generalizing dice with
  | zero =>
      intro context owes
      exact
        ⟨.ok dice.reverse, context, (returns_const _).mpr rfl, owes⟩
  | succ count inductionHypothesis =>
      have first :
          Ensures (σ := Recorded σ) (Owes limit base (count + 1))
            (keepFace sides brutal (fun faces face => face :: faces) · [])
            (Books limit base count) :=
        ensures_keepFace bound sides brutal _ count []
      apply first.bind
      · intro kept
        exact inductionHypothesis _
      · intro error context books
        exact books

theorem exists_returns_collectDice
    {context : Context (Recorded σ)} {count : Nat}
    (owes : context.Owes limit base count) (sides : Positive)
    (brutal : UInt32) :
    ∃ result after,
      Returns (collectDice · sides brutal count []) context
          (result, after) ∧
        Stands limit base (exceeds result) after := by
  obtain ⟨error | dice, after, returned, books⟩ :=
    ensures_collectDice bound sides brutal count [] context owes
  · obtain ⟨same, overcounted⟩ := books
    subst same
    exact ⟨_, after, returned, overcounted⟩
  · exact ⟨_, after, returned, books⟩

theorem accountable_roll (expression : Expression) :
    Accountable (σ := σ) limit (roll · expression) := by
  intro base exceeded context stands
  by_cases keepable : expression.Keepable
  · cases exceeded with
    | false =>
        rcases Owes.count stands bound expression.count.toNat with
          ⟨affords, owes, _⟩ | ⟨excess, overcounted⟩
        · rw [Nat.zero_add] at owes
          obtain ⟨result, after, returned, standsAfter⟩ :=
            exists_returns_collectDice bound owes expression.sides
              expression.brutal
          refine
            ⟨result.map (Roll.mk expression), after,
              returns_roll_of_affords keepable affords returned, ?_⟩
          simpa only [Bool.false_or, exceeds_map] using standsAfter
        · exact
            ⟨_, _, returns_roll_of_excess keepable excess, overcounted⟩
    | true =>
        obtain ⟨excess, overcounted⟩ :=
          Overcounted.count stands bound expression.count.toNat
        exact ⟨_, _, returns_roll_of_excess keepable excess, overcounted⟩
  · refine ⟨_, _, returns_roll_of_not_keepable keepable, ?_⟩
    simpa only [exceeds, Bool.or_false] using stands

end

end RollM

namespace Step

open Context RollM

theorem returns_reset [Roller σ] (context : Context σ) :
    Returns (Step.reset.perform ·) context
      (.ok .done, { context with rolled := 0 }) :=
  (returns_const _).mpr rfl

theorem stands_reset
    {context : Context (Recorded σ)} {exceeded : Bool}
    (stands : Stands limit base exceeded context) :
    Stands limit context.roller.calls false
      { context with rolled := 0 } where
  limited := stands.limited
  kept := Nat.zero_le _
  drawn := ⟨[], (List.append_nil _).symm, rfl⟩

section

variable [Roller σ] (bound : limit.toNat < UInt64.size - 1)
include bound

theorem accountable_perform
    {step : Step} (noReset : step ≠ .reset) :
    Accountable (σ := σ) limit (step.perform ·) :=
  sequential_accountable.perform (accountable_roll bound) noReset

/-! ## Accounts of runs -/

theorem exists_returns_perform
    {context : Context (Recorded σ)} {exceeded : Bool}
    (stands : Stands limit base exceeded context) (step : Step) :
    ∃ outcome after,
      Returns (step.perform ·) context (outcome, after) ∧
        ∃ base exceeded, Stands limit base exceeded after := by
  by_cases resets : step = .reset
  · subst resets
    exact
      ⟨.ok .done, _, returns_reset context, context.roller.calls, false,
        stands_reset stands⟩
  · obtain ⟨outcome, after, returned, standsAfter⟩ :=
      accountable_perform bound resets base exceeded context stands
    exact ⟨outcome, after, returned, base, _, standsAfter⟩

/-- Every run of steps ends. -/
theorem exists_runsTo
    {context : Context (Recorded σ)} {exceeded : Bool}
    (stands : Stands limit base exceeded context) (steps : List Step) :
    ∃ outcomes after, RunsTo steps context outcomes after := by
  induction steps generalizing base exceeded context with
  | nil => exact ⟨[], context, runsTo_nil.mpr ⟨rfl, rfl⟩⟩
  | cons step steps inductionHypothesis =>
      obtain ⟨outcome, between, returned, _, _, standsBetween⟩ :=
        exists_returns_perform bound stands step
      obtain ⟨outcomes, after, runs⟩ := inductionHypothesis standsBetween
      exact
        ⟨outcome :: outcomes, after,
          runsTo_cons.mpr
            ⟨outcome, between, outcomes, returned, runs, rfl⟩⟩

/-- A run without resets exceeds the limit only if an outcome says so. -/
theorem RunsTo.stands
    {steps : List Step} {context after : Context (Recorded σ)}
    {outcomes : List Outcome} {exceeded : Bool}
    (runs : RunsTo steps context outcomes after)
    (noReset : .reset ∉ steps)
    (stands : Stands limit base exceeded context) :
    Stands limit base (exceeded || outcomes.any exceeds) after := by
  induction steps generalizing context outcomes exceeded with
  | nil =>
      obtain ⟨rfl, rfl⟩ := runsTo_nil.mp runs
      simpa using stands
  | cons step steps inductionHypothesis =>
      obtain ⟨outcome, between, others, returned, later, rfl⟩ :=
        runsTo_cons.mp runs
      have different := List.ne_of_not_mem_cons noReset
      have noLaterReset := List.not_mem_of_not_mem_cons noReset
      obtain ⟨result, reached, ends, standsReached⟩ :=
        accountable_perform bound different.symm base exceeded context
          stands
      cases ends.unique returned
      have standsAfter :=
        inductionHypothesis later noLaterReset standsReached
      rw [List.any_cons, ← Bool.or_assoc]
      exact standsAfter

/-- After a reset the account begins anew. -/
theorem RunsTo.stands_of_getLast?
    {steps : List Step} {context after : Context (Recorded σ)}
    {outcomes : List Outcome} {exceeded : Bool}
    (runs : RunsTo steps context outcomes after)
    (last : steps.getLast? = some .reset)
    (stands : Stands limit base exceeded context) :
    Stands limit after.roller.calls false after := by
  induction steps generalizing base exceeded context outcomes with
  | nil => contradiction
  | cons step steps inductionHypothesis =>
      obtain ⟨outcome, between, others, returned, later, _⟩ :=
        runsTo_cons.mp runs
      cases steps with
      | nil =>
          cases last
          obtain ⟨_, rfl⟩ := runsTo_nil.mp later
          cases returned.unique (returns_reset context)
          have standsReset := stands_reset stands
          exact standsReset
      | cons next steps =>
          rw [List.getLast?_cons_cons] at last
          obtain ⟨result, reached, ends, _, _, standsReached⟩ :=
            exists_returns_perform bound stands step
          cases ends.unique returned
          exact inductionHypothesis later last standsReached

/-- A new context and one that has just been reset owe nothing. -/
theorem stands_of_runsTo_limited
    {source : σ} {steps : List Step} {outcomes : List Outcome}
    {start : Context (Recorded σ)}
    (runs :
      RunsTo steps (limited limit (Recorded.start source)) outcomes start)
    (last : ∀ step ∈ steps.getLast?, step = .reset) :
    Stands limit start.roller.calls false start := by
  have new :
      Stands limit [] false (limited limit (Recorded.start source)) :=
    owes_start source
  cases ending : steps.getLast? with
  | none =>
      have empty := List.getLast?_eq_none_iff.mp ending
      subst empty
      obtain ⟨_, rfl⟩ := runsTo_nil.mp runs
      exact new
  | some step =>
      have resets := last step ending
      subst resets
      exact runs.stands_of_getLast? bound ending new

omit bound in
theorem any_exceeds_eq_false_iff {outcomes : List Outcome} :
    outcomes.any exceeds = false ↔
      ∀ outcome ∈ outcomes, ∀ other,
        outcome ≠ .error (.tooManyDice other) := by
  rw [List.any_eq_false]
  apply forall₂_congr
  intro outcome _
  rw [exceeds_eq_true_iff, not_exists]

/-- With a limit below the largest, every run of steps ends, and recording the
calls of the roller has no influence on it. Since the context was made or last
reset, there have been at most as many calls as the limit allows and as dice
have been counted: just as many while no step has exceeded the limit. The
dice counted are within the limit exactly as long. -/
theorem calls_within_limit (source : σ) :
    (∀ steps, ∃ outcomes after,
      RunsTo steps (limited limit (Recorded.start source)) outcomes
          after ∧
        RunsTo steps (limited limit source) outcomes
          (after.map Recorded.source)) ∧
    ∀ earlier since reached outcomes start after,
      RunsTo earlier (limited limit (Recorded.start source)) reached
          start →
        (∀ last ∈ earlier.getLast?, last = .reset) →
      RunsTo since start outcomes after →
        .reset ∉ since →
      ∃ calls,
        after.roller.calls = start.roller.calls ++ calls ∧
          calls.length ≤ limit.toNat ∧
          calls.length ≤ after.rolled.toNat ∧
          ((∀ outcome ∈ outcomes, ∀ other,
              outcome ≠ .error (.tooManyDice other)) →
            calls.length = after.rolled.toNat) ∧
          (after.rolled ≤ limit ↔
            ∀ outcome ∈ outcomes, ∀ other,
              outcome ≠ .error (.tooManyDice other)) := by
  constructor
  · intro steps
    have new :
        Stands limit [] false (limited limit (Recorded.start source)) :=
      owes_start source
    obtain ⟨outcomes, after, runs⟩ := exists_runsTo bound new steps
    exact
      ⟨outcomes, after, runs, runs.map Recorded.respects_source⟩
  · intro earlier since reached outcomes start after runs last later
      noReset
    have standsStart := stands_of_runsTo_limited bound runs last
    have standsAfter := later.stands bound noReset standsStart
    have account := standsAfter.exists_calls
    simpa only [Bool.false_or, any_exceeds_eq_false_iff] using account

end

/-- A limit of three stops `d6b5` after three calls. After a reset `2d6` takes
two calls, and then there is no room for `2d6` again. -/
theorem two_calls_since_reset :
    ∃ start after : Context (Recorded FaceTape),
      RunsTo
          [.evaluate ⟨.one, ⟨6, by decide⟩, 0, 5⟩, .reset]
          (limited 3 (Recorded.start ⟨[1, 2, 3], 0⟩))
          [.error (.tooManyDice 3), .ok .done] start ∧
        RunsTo
          [.evaluate ⟨⟨2, by decide⟩, ⟨6, by decide⟩, 0, 0⟩,
            .evaluate ⟨⟨2, by decide⟩, ⟨6, by decide⟩, 0, 0⟩]
          start [.ok (.total 12), .error (.tooManyDice 3)] after ∧
        ∃ calls,
          after.roller.calls = start.roller.calls ++ calls ∧
            calls.length ≤ 3 ∧ calls.length ≤ after.rolled.toNat ∧
            ¬ after.rolled ≤ 3 := by
  let six : Positive := ⟨6, by decide⟩
  let three : List (Positive × UInt32) := [(six, 1), (six, 2), (six, 3)]
  let stopped : Context (Recorded FaceTape) :=
    ⟨some 3, 4, ⟨⟨[], 3⟩, three⟩⟩
  let start : Context (Recorded FaceTape) :=
    ⟨some 3, 0, ⟨⟨[], 3⟩, three⟩⟩
  let full : Context (Recorded FaceTape) :=
    ⟨some 3, 2, ⟨⟨[], 5⟩, three ++ [(six, 6), (six, 6)]⟩⟩
  let after : Context (Recorded FaceTape) :=
    ⟨some 3, 4, ⟨⟨[], 5⟩, three ++ [(six, 6), (six, 6)]⟩⟩
  have earlier :
      RunsTo
        [.evaluate ⟨.one, six, 0, 5⟩, .reset]
        (limited 3 (Recorded.start ⟨[1, 2, 3], 0⟩))
        [.error (.tooManyDice 3), .ok .done] start := by
    refine
      ⟨[(.error (.tooManyDice 3), stopped), (.ok .done, start)], 4, ?_,
        rfl, rfl⟩
    intro attempts le
    obtain ⟨extra, rfl⟩ := Nat.exists_eq_add_of_le' le
    rfl
  have since :
      RunsTo
        [.evaluate ⟨⟨2, by decide⟩, six, 0, 0⟩,
          .evaluate ⟨⟨2, by decide⟩, six, 0, 0⟩]
        start [.ok (.total 12), .error (.tooManyDice 3)] after := by
    refine
      ⟨[(.ok (.total 12), full), (.error (.tooManyDice 3), after)], 1, ?_,
        rfl, rfl⟩
    intro attempts le
    obtain ⟨extra, rfl⟩ := Nat.exists_eq_add_of_le' le
    rfl
  have small : (3 : UInt64).toNat < UInt64.size - 1 := by decide
  obtain ⟨calls, record, few, fewer, _, within⟩ :=
    (calls_within_limit small (⟨[1, 2, 3], 0⟩ : FaceTape)).2 _ _ _ _ start
      after earlier (by simp) since (by simp)
  refine ⟨start, after, earlier, since, calls, record, few, fewer, ?_⟩
  intro le
  exact
    within.mp le (.error (.tooManyDice 3))
      (List.mem_cons_of_mem _ List.mem_cons_self) 3 rfl

end Step

end DiceNotation
