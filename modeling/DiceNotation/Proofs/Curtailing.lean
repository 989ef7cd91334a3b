import DiceNotation.Proofs.Counting
import DiceNotation.Proofs.Processing
import DiceNotation.Proofs.Recording

/-!
# Limits cut runs short

Under a lower limit an action does what it does under a higher one, up to the
moment at which the lower limit is exceeded; nothing else depends on the
limit. `Curtailed` compares the two endings, and every step `Curtails`
(`parametric_curtails`).
-/

namespace DiceNotation

namespace Context

variable {σ : Type}

/-- The same context with another limit. -/
def withLimit (limit : Option UInt64) (context : Context σ) : Context σ :=
  { context with limit := limit }

/-- There is no limit, or it is at least `low`. -/
def LimitedAbove (low : UInt64) (context : Context σ) : Prop :=
  ∀ limit ∈ context.limit, low ≤ limit

/-- Neither has the limit changed, nor have recorded calls been lost. -/
structure Continues (context after : Context (Recorded σ)) : Prop where
  limit : after.limit = context.limit
  calls : context.roller.calls <+: after.roller.calls

theorem Continues.refl (context : Context (Recorded σ)) :
    context.Continues context :=
  ⟨rfl, List.prefix_refl _⟩

theorem Continues.trans
    {context between after : Context (Recorded σ)}
    (first : context.Continues between) (second : between.Continues after) :
    context.Continues after :=
  ⟨second.limit.trans first.limit, first.calls.trans second.calls⟩

theorem Continues.limitedAbove
    {low : UInt64} {context after : Context (Recorded σ)}
    (continues : context.Continues after)
    (above : context.LimitedAbove low) : after.LimitedAbove low := by
  rw [LimitedAbove, continues.limit]
  exact above

theorem excess?_withLimit (low : UInt64) (context : Context σ) :
    (context.withLimit (some low)).excess? =
      if low < context.rolled then some (.tooManyDice low) else none :=
  rfl

theorem LimitedAbove.excess?_eq_none
    {low : UInt64} {context : Context σ}
    (above : context.LimitedAbove low) (fits : ¬ low < context.rolled) :
    context.excess? = none := by
  rw [excess?]
  cases present : context.limit with
  | none => rfl
  | some limit =>
      have lowest := above limit present
      have within : ¬ limit < context.rolled := by
        intro exceeded
        exact fits (UInt64.lt_of_le_of_lt lowest exceeded)
      exact if_neg within

end Context

namespace RollM

variable {σ α β : Type} {low : UInt64}

/-- How an action ends under the limit `low`, given how it ends under a higher
one: in the same way, or with `low` exceeded after a part of the calls. -/
inductive Curtailed (low : UInt64) :
    Ending (Recorded σ) α → Ending (Recorded σ) α → Prop
  | same (result : Except RollError α) (after : Context (Recorded σ)) :
      Curtailed low (result, after.withLimit (some low)) (result, after)
  | exceeded {stopped after : Context (Recorded σ)}
      {result : Except RollError α}
      (calls : stopped.roller.calls <+: after.roller.calls) :
      Curtailed low (.error (.tooManyDice low), stopped) (result, after)

/-- Wherever `action` ends under a limit that is no lower than `low`, `image`
ends under the limit `low`, and its ending is curtailed. -/
def Curtails (low : UInt64) (action image : RollM (Recorded σ) α) : Prop :=
  ∀ context ending, context.LimitedAbove low →
    runIn context action = some ending →
      context.Continues ending.2 ∧
        ∃ early,
          runIn (context.withLimit (some low)) image = some early ∧
            Curtailed low early ending

theorem Curtailed.calls
    {early full : Ending (Recorded σ) α}
    (curtailed : Curtailed low early full) :
    early.2.roller.calls <+: full.2.roller.calls := by
  cases curtailed with
  | same result after => exact List.prefix_refl _
  | exceeded calls => exact calls

theorem Curtailed.eq_of_ne
    {early full : Ending (Recorded σ) α}
    (curtailed : Curtailed low early full)
    (within : early.1 ≠ .error (.tooManyDice low)) :
    early = (full.1, full.2.withLimit (some low)) := by
  cases curtailed with
  | same result after => rfl
  | exceeded calls => exact absurd rfl within

/-! ## Basic actions -/

/-- It is enough that the limit has no influence on an action. -/
theorem Curtails.of_same
    {action image : RollM (Recorded σ) α}
    (same :
      ∀ context, ∃ result after,
        context.Continues after ∧
          runIn context action = some (result, after) ∧
            runIn (context.withLimit (some low)) image =
              some (result, after.withLimit (some low))) :
    Curtails low action image := by
  intro context ending _ ends
  rcases same context with ⟨result, after, continues, full, short⟩
  rw [full] at ends
  cases ends
  exact ⟨continues, _, short, Curtailed.same result after⟩

theorem Curtails.bind
    {action image : RollM (Recorded σ) α}
    {next imageNext : α → RollM (Recorded σ) β}
    (first : Curtails low action image)
    (second : ∀ value, Curtails low (next value) (imageNext value)) :
    Curtails low (action >>= next) (image >>= imageNext) := by
  intro context ending above ends
  rw [runIn_bind]
  rcases runIn_bind_eq_some_iff.mp ends with
    ⟨value, between, begun, ended⟩ | ⟨error, begun, same⟩
  · rcases first context _ above begun with
      ⟨continues, early, earlyEnds, curtailed⟩
    have aboveBetween := continues.limitedAbove above
    rcases second value between ending aboveBetween ended with
      ⟨later, nextEarly, nextEnds, nextCurtailed⟩
    rw [earlyEnds]
    refine ⟨continues.trans later, ?_⟩
    cases curtailed with
    | same => exact ⟨nextEarly, nextEnds, nextCurtailed⟩
    | exceeded calls =>
        exact
          ⟨_, rfl, Curtailed.exceeded (calls.trans later.calls)⟩
  · rcases first context _ above begun with
      ⟨continues, early, earlyEnds, curtailed⟩
    obtain ⟨result, after⟩ := ending
    cases same
    rw [earlyEnds]
    refine ⟨continues, ?_⟩
    cases curtailed with
    | same => exact ⟨_, rfl, Curtailed.same _ _⟩
    | exceeded calls => exact ⟨_, rfl, Curtailed.exceeded calls⟩

/-- Only here does the limit matter. -/
theorem curtails_charge (amount : Nat) :
    Curtails (σ := σ) low (charge amount) (charge amount) := by
  intro context ending above ends
  have continues : context.Continues (context.count amount) :=
    ⟨rfl, List.prefix_refl _⟩
  have aboveCounted := continues.limitedAbove above
  have early :
      (context.withLimit (some low)).count amount =
        (context.count amount).withLimit (some low) :=
    rfl
  rw [runIn_charge] at ends ⊢
  rw [early, Context.excess?_withLimit]
  by_cases exceeded : low < (context.count amount).rolled
  · rw [if_pos exceeded]
    have stopped (result : Except RollError Unit) :
        Curtailed low
          (.error (.tooManyDice low),
            (context.count amount).withLimit (some low))
          (result, context.count amount) :=
      Curtailed.exceeded (List.prefix_refl _)
    cases present : (context.count amount).excess? with
    | none =>
        rw [present] at ends
        cases ends
        exact ⟨continues, _, rfl, stopped (.ok ())⟩
    | some error =>
        rw [present] at ends
        cases ends
        exact ⟨continues, _, rfl, stopped (.error error)⟩
  · rw [aboveCounted.excess?_eq_none exceeded] at ends
    rw [if_neg exceeded]
    cases ends
    exact ⟨continues, _, rfl, Curtailed.same _ _⟩

variable [Roller σ]

theorem parametric_curtails (low : UInt64) :
    Parametric (σ := Recorded σ) fun action image =>
      Curtails low action image where
  related_pure value :=
    Curtails.of_same fun context =>
      ⟨.ok value, context, Context.Continues.refl context,
        runIn_pure context value, runIn_pure _ value⟩
  related_bind := Curtails.bind
  related_throw brutal sides :=
    Curtails.of_same fun context =>
      ⟨.error (.invalidThreshold brutal sides), context,
        Context.Continues.refl context, runIn_throw context _,
        runIn_throw _ _⟩
  related_unfinished := by
    intro α context ending above ends
    rw [runIn_unfinished] at ends
    contradiction
  related_charge := curtails_charge
  related_draw sides :=
    Curtails.of_same fun context =>
      ⟨.ok (context.shown sides), context.drawn sides,
        ⟨rfl, List.prefix_append _ _⟩, runIn_draw context sides,
        runIn_draw _ sides⟩
  related_reset :=
    Curtails.of_same fun context =>
      ⟨.ok (), { context with rolled := 0 }, ⟨rfl, List.prefix_refl _⟩,
        runIn_reset context, runIn_reset _⟩

end RollM

namespace Step

open RollM

variable {σ : Type} [Roller σ]

theorem steady_perform (step : Step) :
    Steady (σ := σ) (step.perform ·) := by
  by_cases reset : step = .reset
  · subst reset
    exact steady_const _
  · exact sequential_steady.perform steady_roll reset

/-- In this context the step ends like this, and these are the calls of the
roller with the faces that it shows. -/
def EndsAfter (step : Step) (context : Context σ)
    (calls : List (Positive × UInt32)) (outcome : Outcome)
    (after : Context σ) : Prop :=
  Returns (step.perform ·) (context.map Recorded.start)
    (outcome, after.map fun source => ⟨source, calls⟩)

theorem EndsAfter.returns
    {step : Step} {context after : Context σ}
    {calls : List (Positive × UInt32)} {outcome : Outcome}
    (ends : step.EndsAfter context calls outcome after) :
    Returns (step.perform ·) context (outcome, after) := by
  rcases ends with ⟨enough, ends⟩
  refine ⟨enough, ?_⟩
  intro attempts le
  have mirrored :=
    mirrors_perform Recorded.respects_source attempts step
      (context.map Recorded.start)
  rw [ends attempts le] at mirrored
  exact mirrored

theorem exists_endsAfter
    {step : Step} {context after : Context σ} {outcome : Outcome}
    (returned : Returns (step.perform ·) context (outcome, after)) :
    ∃ calls, step.EndsAfter context calls outcome after := by
  rw [returns_iff_exists (steady_perform step)] at returned
  rcases returned with ⟨attempts, ends⟩
  have mirrored :=
    mirrors_perform Recorded.respects_source attempts step
      (context.map Recorded.start)
  have same :
      (context.map Recorded.start).map Recorded.source = context := rfl
  rw [same, ends] at mirrored
  rcases Option.map_eq_some_iff.mp mirrored.symm with
    ⟨⟨recordedOutcome, reached⟩, recordedEnds, equality⟩
  refine ⟨reached.roller.calls, ?_⟩
  rw [EndsAfter, returns_iff_exists (steady_perform step)]
  refine ⟨attempts, recordedEnds.trans ?_⟩
  cases equality
  rfl

theorem EndsAfter.unique
    {step : Step} {context after reached : Context σ}
    {calls others : List (Positive × UInt32)} {outcome result : Outcome}
    (first : step.EndsAfter context calls outcome after)
    (second : step.EndsAfter context others result reached) :
    calls = others ∧ outcome = result ∧ after = reached := by
  have same := Returns.unique first second
  simp only [Prod.mk.injEq, Context.map, Context.mk.injEq,
    Recorded.mk.injEq] at same
  rcases same with ⟨outcomes, limits, counts, rollers, records⟩
  refine ⟨records, outcomes, ?_⟩
  cases after
  cases reached
  cases limits
  cases counts
  cases rollers
  rfl

/-- A step that returns also returns under any lower limit, after the first of
its calls and the faces that they show. Unless it exceeds the lower limit, it
ends as before: with the same value or the same error, after the same calls,
and with as many dice counted. -/
theorem returns_under_lower_limit
    {low : UInt64} {high : Option UInt64}
    (above : ∀ limit ∈ high, low ≤ limit) (step : Step)
    {rolled : UInt64} {source : σ} {outcome : Outcome} {after : Context σ}
    (returned :
      Returns (step.perform ·) ⟨high, rolled, source⟩ (outcome, after)) :
    ∃ more early stopped fewer,
      step.EndsAfter ⟨high, rolled, source⟩ more outcome after ∧
        Returns (step.perform ·) ⟨some low, rolled, source⟩
          (early, stopped) ∧
        step.EndsAfter ⟨some low, rolled, source⟩ fewer early stopped ∧
        fewer <+: more ∧
        ((∀ limit, early ≠ .error (.tooManyDice limit)) →
          early = outcome ∧ stopped.rolled = after.rolled ∧
            stopped.roller = after.roller ∧ fewer = more) := by
  rcases exists_endsAfter returned with ⟨more, full⟩
  rcases (returns_iff_exists (steady_perform step)).mp full with
    ⟨attempts, fullEnds⟩
  have curtails :=
    parametric_perform (parametric_curtails (σ := σ) low) attempts step
  have aboveRecorded :
      (Context.map Recorded.start ⟨high, rolled, source⟩).LimitedAbove
        low :=
    above
  rcases curtails _ _ aboveRecorded fullEnds with
    ⟨_, ⟨early, stopped⟩, earlyEnds, curtailed⟩
  have short :
      step.EndsAfter ⟨some low, rolled, source⟩ stopped.roller.calls early
        (stopped.map Recorded.source) :=
    (returns_iff_exists (steady_perform step)).mpr ⟨attempts, earlyEnds⟩
  refine
    ⟨more, early, _, _, full, short.returns, short, curtailed.calls, ?_⟩
  intro within
  cases curtailed.eq_of_ne (within low)
  exact ⟨rfl, rfl, rfl, rfl⟩

/-- The die `d6b2` shows a one and is rolled again, for which a limit of one
leaves no room. -/
theorem one_call_under_limit_of_one :
    ∃ fewer,
      fewer <+:
          [((⟨6, by decide⟩ : Positive), (1 : UInt32)),
            (⟨6, by decide⟩, 4)] ∧
        (evaluate ⟨.one, ⟨6, by decide⟩, 0, 2⟩).EndsAfter
          (⟨some 1, 0, ⟨[1, 4], 0⟩⟩ : Context FaceTape) fewer
          (.error (.tooManyDice 1)) ⟨some 1, 2, ⟨[4], 1⟩⟩ := by
  let six : Positive := ⟨6, by decide⟩
  let step : Step := evaluate ⟨.one, six, 0, 2⟩
  let tape : FaceTape := ⟨[1, 4], 0⟩
  have full :
      step.EndsAfter ⟨none, 0, tape⟩ [(six, 1), (six, 4)]
        (.ok (.total 4)) ⟨none, 2, ⟨[], 2⟩⟩ :=
    (returns_iff_exists (steady_perform step)).mpr ⟨2, rfl⟩
  have short :
      step.EndsAfter ⟨some 1, 0, tape⟩ [(six, 1)]
        (.error (.tooManyDice 1)) ⟨some 1, 2, ⟨[4], 1⟩⟩ :=
    (returns_iff_exists (steady_perform step)).mpr ⟨2, rfl⟩
  have unlimited : ∀ limit ∈ (none : Option UInt64), 1 ≤ limit := by
    intro limit present
    contradiction
  rcases returns_under_lower_limit unlimited step full.returns with
    ⟨more, early, stopped, fewer, ends, _, endsEarly, part, _⟩
  rcases full.unique ends with ⟨allCalls, _, _⟩
  rcases short.unique endsEarly with ⟨_, sameOutcome, sameContext⟩
  subst allCalls sameOutcome sameContext
  exact ⟨fewer, part, endsEarly⟩

end Step

end DiceNotation
