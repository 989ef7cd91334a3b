import DiceNotation.Proofs.Range
import DiceNotation.Proofs.Thresholds
import DiceNotation.Roller.Scrambler

/-!
# Ledgers

Where no die can be rolled again, faces have no part in what is counted,
which dice are rolled and which error comes of it. All this can be entered in
a ledger from the expressions alone, and rolling them with faces in range
keeps to the ledger (`RollM.exists_returns_mapM_roll`). Two runs of one text
then differ in their totals at most (`Step.same_account_of_settled`).
-/

namespace DiceNotation

/-! ## Dice rolled in turn -/

namespace Roller

variable {σ τ : Type} [Roller σ] [Roller τ] {source : σ}

/-- The source after calls with these dice. -/
def afterAll (dice : List Positive) (source : σ) : σ :=
  dice.foldl (fun reached sides => (roll reached sides).2) source

theorem afterAll_append (dice more : List Positive) (source : σ) :
    afterAll (dice ++ more) source = afterAll more (afterAll dice source) :=
  List.foldl_append

theorem afterAll_replicate
    (count : Nat) (sides : Positive) (source : σ) :
    afterAll (List.replicate count sides) source =
      after sides source count := by
  induction count with
  | zero => rfl
  | succ count inductionHypothesis =>
      rw [List.replicate_succ', afterAll_append, inductionHypothesis]
      rfl

theorem reachable_afterAll (dice : List Positive) (source : σ) :
    Reachable source (afterAll dice source) := by
  induction dice generalizing source with
  | nil => exact Reachable.start
  | cons sides dice inductionHypothesis =>
      have first : Reachable source (roll source sides).2 :=
        Reachable.start.roll sides
      exact first.trans (inductionHypothesis _)

/-- A record of calls has the dice in their order. -/
theorem exists_afterAll_recorded
    (dice : List Positive) (source : σ) (before : List (Positive × UInt32)) :
    ∃ calls,
      afterAll dice (⟨source, before⟩ : Recorded σ) =
          ⟨afterAll dice source, before ++ calls⟩ ∧
        calls.map Prod.fst = dice := by
  induction dice generalizing source before with
  | nil => exact
      ⟨[], congrArg (Recorded.mk source) (List.append_nil before).symm, rfl⟩
  | cons sides dice inductionHypothesis =>
      let call := (sides, (roll source sides).1)
      obtain ⟨calls, later, same⟩ :=
        inductionHypothesis (roll source sides).2 (before ++ [call])
      refine ⟨call :: calls, later.trans ?_, congrArg (sides :: ·) same⟩
      rw [List.append_assoc]
      rfl

theorem InRangeFrom.reached
    {reached : σ} (inRange : InRangeFrom source)
    (reachable : Reachable source reached) : InRangeFrom reached :=
  fun other later => inRange other (reachable.trans later)

theorem Reachable.map
    {view : σ → τ} (respects : Respects view) {reached : σ}
    (reachable : Reachable source reached) :
    Reachable (view source) (view reached) := by
  induction reachable with
  | start => exact Reachable.start
  | @roll between _ sides inductionHypothesis =>
      have next := inductionHypothesis.roll sides
      rw [respects between sides] at next
      exact next

theorem InRangeFrom.of_respects
    {view : σ → τ} (respects : Respects view)
    (inRange : InRangeFrom (view source)) : InRangeFrom source := by
  intro reached reachable sides
  have shown := inRange _ (reachable.map respects) sides
  rw [respects reached sides] at shown
  exact shown

end Roller

/-! ## Entries -/

/-- A context with the dice rolled so far, in order, in place of a roller. -/
abbrev Ledger := Context (List Positive)

namespace Ledger

variable (ledger : Ledger) {expression : Expression}
  {others : List Expression}

/-- The ledger with the dice of one more expression. -/
def add (expression : Expression) : Ledger :=
  { ledger.count expression.count.toNat with
    roller :=
      ledger.roller ++
        List.replicate expression.count.toNat expression.sides }

/-- Enters expressions up to the first that is refused. -/
def enter (ledger : Ledger) :
    List Expression → Except RollError Unit × Ledger
  | [] => (.ok (), ledger)
  | expression :: others =>
      if expression.Keepable then
        match (ledger.count expression.count.toNat).excess? with
        | some error =>
            (.error error, ledger.count expression.count.toNat)
        | none => enter (ledger.add expression) others
      else
        (.error (.invalidThreshold expression.brutal expression.sides.val),
          ledger)

theorem enter_of_not_keepable (unkeepable : ¬ expression.Keepable) :
    ledger.enter (expression :: others) =
      (.error (.invalidThreshold expression.brutal expression.sides.val),
        ledger) :=
  if_neg unkeepable

variable {ledger}

theorem enter_of_excess
    {error : RollError} (keepable : expression.Keepable)
    (excess :
      (ledger.count expression.count.toNat).excess? = some error) :
    ledger.enter (expression :: others) =
      (.error error, ledger.count expression.count.toNat) := by
  rw [enter, if_pos keepable, excess]

theorem enter_of_affords
    (keepable : expression.Keepable)
    (affords : ledger.Affords expression.count.toNat) :
    ledger.enter (expression :: others) =
      (ledger.add expression).enter others := by
  have within :
      (ledger.count expression.count.toNat).excess? = none :=
    affords
  rw [enter, if_pos keepable, within]

section

variable {σ : Type} [Roller σ] (source : σ)

/-- The context in which the dice of the ledger have been rolled, from this
source on. -/
def context (ledger : Ledger) : Context σ :=
  ledger.map (Roller.afterAll · source)

theorem context_add (ledger : Ledger) (expression : Expression) :
    (ledger.add expression).context source =
      (ledger.context source).advanced expression.sides
        expression.count.toNat expression.count.toNat := by
  rw [context, Context.map, add, Roller.afterAll_append,
    Roller.afterAll_replicate]
  rfl

end

end Ledger

/-! ## Overdrawn limits -/

/-- With the dice of some expression there are more than the limit allows, and
neither this expression nor one before it has a threshold that leaves no
face. -/
def Overdraws (limit rolled : Nat) (expressions : List Expression) : Prop :=
  ∃ front last back,
    expressions = front ++ last :: back ∧
      (∀ expression ∈ front ++ [last], expression.Keepable) ∧
      limit <
        rolled +
          ((front ++ [last]).map fun expression =>
            expression.count.toNat).sum

section

variable {limit rolled : Nat} {expression : Expression}
  {others : List Expression}

theorem not_overdraws_nil : ¬ Overdraws limit rolled [] := by
  intro overdraws
  obtain ⟨front, last, back, split, _⟩ := overdraws
  exact
    List.append_ne_nil_of_right_ne_nil front (List.cons_ne_nil last back)
      split.symm

theorem overdraws_cons :
    Overdraws limit rolled (expression :: others) ↔
      expression.Keepable ∧
        (limit < rolled + expression.count.toNat ∨
          Overdraws limit (rolled + expression.count.toNat) others) := by
  constructor
  · intro overdraws
    obtain ⟨front, last, back, split, keepable, exceeded⟩ := overdraws
    cases front with
    | nil =>
        injection split with sameExpression _
        subst sameExpression
        exact ⟨keepable _ List.mem_cons_self, Or.inl exceeded⟩
    | cons first front =>
        injection split with sameExpression sameOthers
        subst sameExpression
        obtain ⟨here, later⟩ := List.forall_mem_cons.mp keepable
        rw [List.cons_append, List.map_cons, List.sum_cons,
          ← Nat.add_assoc] at exceeded
        exact
          ⟨here, Or.inr ⟨front, last, back, sameOthers, later, exceeded⟩⟩
  · intro overdraws
    rcases overdraws with
      ⟨keepable, here | ⟨front, last, back, split, later, exceeded⟩⟩
    · refine ⟨[], expression, others, rfl, ?_, here⟩
      exact List.forall_mem_singleton.mpr keepable
    · refine
        ⟨expression :: front, last, back, congrArg (expression :: ·) split,
          List.forall_mem_cons.mpr ⟨keepable, later⟩, ?_⟩
      rw [List.cons_append, List.map_cons, List.sum_cons, ← Nat.add_assoc]
      exact exceeded

end

/-- A ledger reports too many dice where its limit is overdrawn. -/
theorem Ledger.enter_eq_tooManyDice_iff
    (ledger : Ledger) {expressions : List Expression} {limit : UInt64} :
    (ledger.enter expressions).1 = .error (.tooManyDice limit) ↔
      ledger.limit = some limit ∧ limit.toNat < UInt64.size - 1 ∧
        Overdraws limit.toNat ledger.rolled.toNat expressions := by
  induction expressions generalizing ledger with
  | nil =>
      constructor
      · intro same
        cases same
      · intro found
        exact absurd found.2.2 not_overdraws_nil
  | cons expression others inductionHypothesis =>
      rw [overdraws_cons]
      by_cases keepable : expression.Keepable
      · rcases ledger.affords_or_exceeded expression.count.toNat with
          affords | ⟨most, present, bound, exceeded⟩
        · rw [enter_of_affords keepable affords, inductionHypothesis]
          apply and_congr_right
          intro (present : ledger.limit = some limit)
          apply and_congr_right
          intro bound
          have within := Context.le_of_affords present bound affords
          have counted :
              (ledger.add expression).rolled.toNat =
                ledger.rolled.toNat + expression.count.toNat :=
            Context.toNat_rolled_count_of_le within
          rw [counted]
          exact
            ⟨fun later => ⟨keepable, Or.inr later⟩,
              fun overdraws =>
                overdraws.2.resolve_left (Nat.not_lt.mpr within)⟩
        · have excess :=
            Context.excess?_count_of_lt present bound exceeded
          rw [enter_of_excess keepable excess, present]
          constructor
          · intro same
            cases same
            exact ⟨rfl, bound, keepable, Or.inl exceeded⟩
          · intro found
            rw [Option.some.inj found.1]
      · rw [enter_of_not_keepable ledger keepable]
        constructor
        · intro same
          cases same
        · intro found
          exact absurd found.2.2.1 keepable

namespace RollM

open Context

/-! ## Rolling by the ledger -/

section

variable {σ : Type} [Roller σ] {context : Context σ} {source : σ}
  {expression : Expression}

/-- No die is rolled more than once. -/
theorem exists_returns_roll_of_settled
    (settled : expression.Settled) (keepable : expression.Keepable)
    (inRange : Roller.InRangeFrom context.roller)
    (affords : context.Affords expression.count.toNat) :
    ∃ rolled,
      Returns (roll · expression) context
        (.ok rolled,
          context.advanced expression.sides expression.count.toNat
            expression.count.toNat) := by
  have kept : expression.brutal = 0 :=
    settled.resolve_right (not_not_intro keepable)
  have above :
      ∀ face ∈
          Roller.faces expression.sides context.roller
            expression.count.toNat,
        expression.brutal < face := by
    intro face member
    obtain ⟨call, _, rfl⟩ := List.mem_map.mp member
    have reachable :=
      Roller.reachable_after expression.sides context.roller call
    rw [kept]
    exact (inRange _ reachable expression.sides).1
  obtain ⟨rolled, returned, _⟩ :=
    exists_rolled_of_returns_evaluate
      (returns_evaluate_of_above keepable affords above)
  exact ⟨rolled, returned⟩

/-- Rolling settled expressions ends as entering them in a ledger does. -/
theorem exists_returns_mapM_roll
    {expressions : List Expression}
    (settled : ∀ expression ∈ expressions, expression.Settled)
    (inRange : Roller.InRangeFrom source) (ledger : Ledger) :
    ∃ result : Except RollError (List Roll),
      Returns (fun attempts => expressions.mapM (roll attempts))
          (ledger.context source)
          (result, (ledger.enter expressions).2.context source) ∧
        result.map (fun _ => ()) = (ledger.enter expressions).1 := by
  induction expressions generalizing ledger with
  | nil =>
      simp only [List.mapM_nil]
      exact ⟨.ok [], (returns_const _).mpr rfl, rfl⟩
  | cons expression others inductionHypothesis =>
      obtain ⟨here, later⟩ := List.forall_mem_cons.mp settled
      simp only [List.mapM_cons, bind_pure_comp]
      by_cases keepable : expression.Keepable
      · cases excess :
            (ledger.count expression.count.toNat).excess? with
        | some error =>
            have failed :
                Returns (roll · expression) (ledger.context source)
                  (.error error,
                    Ledger.context source
                      (ledger.count expression.count.toNat)) :=
              returns_roll_of_excess keepable excess
            rw [Ledger.enter_of_excess keepable excess]
            exact ⟨.error error, failed.bind_error, rfl⟩
        | none =>
            have affords :
                (ledger.context source).Affords expression.count.toNat :=
              excess
            have stillInRange :=
              inRange.reached
                (Roller.reachable_afterAll ledger.roller source)
            obtain ⟨rolled, first⟩ :=
              exists_returns_roll_of_settled here keepable stillInRange
                affords
            rw [← Ledger.context_add] at first
            obtain ⟨result, returned, same⟩ :=
              inductionHypothesis later (ledger.add expression)
            rw [Ledger.enter_of_affords keepable excess]
            refine
              ⟨result.map (rolled :: ·), first.bind (returned.map _), ?_⟩
            rw [← same]
            cases result with
            | error error => rfl
            | ok rolls => rfl
      · rw [Ledger.enter_of_not_keepable ledger keepable]
        exact
          ⟨.error _, (returns_roll_of_not_keepable keepable).bind_error,
            rfl⟩

end

/-! ## Results without their values -/

section

variable {α β : Type} {result : Except RollError α}

theorem map_eq_error_iff {change : α → β} {error : RollError} :
    result.map change = .error error ↔ result = .error error := by
  cases result with
  | error other =>
      constructor
      · intro same
        cases same
        rfl
      · intro same
        cases same
        rfl
  | ok value =>
      constructor
      · intro same
        cases same
      · intro same
        cases same

theorem Matches.of_map_eq
    {related : α → β → Prop} {image : Except RollError β}
    (same : result.map (fun _ => ()) = image.map fun _ => ())
    (values :
      ∀ value imageValue, result = .ok value → image = .ok imageValue →
        related value imageValue) :
    Matches related result image := by
  cases image with
  | error error =>
      rw [map_eq_error_iff.mp same]
      exact Matches.error error
  | ok imageValue =>
      cases result with
      | error error => contradiction
      | ok value => exact Matches.ok (values value imageValue rfl rfl)

end

end RollM

/-! ## Processing by the ledger -/

namespace Step

open RollM

/-- The step processes the text, and this is its answer if the rolls are
these. -/
inductive Processes (text : Text) : Step → (List Roll → Answer) → Prop
  | process :
      Processes text (.process text) fun rolls =>
        .text (.ofTotals text (rolls.map Roll.total))
  | processDetailed :
      Processes text (.processDetailed text) fun rolls =>
        .detailed (.ofTotals text (rolls.map Roll.total)) rolls

variable {σ τ : Type} [Roller σ] [Roller τ] {text : Text} {step : Step}
  {answer : List Roll → Answer}

theorem Processes.returns
    {context after : Context σ} {result : Except RollError (List Roll)}
    (processes : step.Processes text answer)
    (returned :
      Returns (fun attempts => (expressions text).mapM (RollM.roll attempts))
        context (result, after)) :
    Returns (step.perform ·) context (result.map answer, after) := by
  have detailed := returns_processDetailed_of_mapM returned
  cases processes with
  | process =>
      have processed :=
        (returns_process_of_processDetailed detailed).map Answer.text
      simp only [perform, bind_pure_comp]
      cases result with
      | error error => exact processed
      | ok rolls => exact processed
  | processDetailed =>
      have answered :=
        detailed.map fun found : Processed × List Roll =>
          Answer.detailed found.1 found.2
      simp only [perform, bind_pure_comp]
      cases result with
      | error error => exact answered
      | ok rolls => exact answered

/-- Processing settled expressions ends as entering them in a ledger does. -/
theorem exists_endsAfter_of_settled
    (processes : step.Processes text answer)
    (settled : ∀ expression ∈ expressions text, expression.Settled)
    {roller : σ} (inRange : Roller.InRangeFrom roller)
    (limit : Option UInt64) (rolled : UInt64) :
    let ended := Ledger.enter ⟨limit, rolled, []⟩ (expressions text)
    ∃ (calls : List (Positive × UInt32))
      (result : Except RollError (List Roll)) (after : Context σ),
      step.EndsAfter ⟨limit, rolled, roller⟩ calls (result.map answer)
          after ∧
        calls.map Prod.fst = ended.2.roller ∧
        after.rolled = ended.2.rolled ∧
        result.map (fun _ => ()) = ended.1 ∧
        ∀ rolls,
          result = .ok rolls →
            rolls.map Roll.expression = expressions text := by
  intro ended
  have recordedInRange :
      Roller.InRangeFrom (Recorded.start roller) :=
    Roller.InRangeFrom.of_respects Recorded.respects_source inRange
  obtain ⟨result, returned, same⟩ :=
    exists_returns_mapM_roll settled recordedInRange ⟨limit, rolled, []⟩
  have ends := processes.returns returned
  obtain ⟨calls, recorded, dice⟩ :=
    Roller.exists_afterAll_recorded ended.2.roller roller []
  refine
    ⟨calls, result, ended.2.context roller, ?_, dice, rfl, same, ?_⟩
  · have reached :
        ended.2.context (Recorded.start roller) =
          (ended.2.context roller).map fun source => ⟨source, calls⟩ := by
      rw [Ledger.context, Context.map, Recorded.start, recorded]
      rfl
    rw [reached] at ends
    exact ends
  · intro rolls succeeded
    subst succeeded
    rcases (returns_mapM steady_roll _ _).mp returned with
      ⟨values, rolls, equality⟩ | ⟨error, _, impossible⟩
    · cases equality
      exact rolls.map_expression
    · contradiction

/-- Where no die can be rolled again and all faces are in range, it depends on
the text, the limit and the counter alone whether processing succeeds, with
which error it fails, which dice are rolled in which order, and how many are
counted. Only the totals in the text may differ between two rollers. Too many
dice are reported where the dice of the expressions exceed the limit before a
threshold is found that leaves no face. -/
theorem same_account_of_settled
    (processes : step.Processes text answer)
    (settled : ∀ expression ∈ expressions text, expression.Settled)
    {first : σ} {second : τ} (firstInRange : Roller.InRangeFrom first)
    (secondInRange : Roller.InRangeFrom second)
    (limit : Option UInt64) (rolled : UInt64) :
    (∃ (calls others : List (Positive × UInt32))
      (result image : Except RollError (List Roll)) (after : Context σ)
      (other : Context τ),
      step.EndsAfter ⟨limit, rolled, first⟩ calls (result.map answer)
          after ∧
        step.EndsAfter ⟨limit, rolled, second⟩ others (image.map answer)
          other ∧
        calls.map Prod.fst = others.map Prod.fst ∧
        after.rolled = other.rolled ∧
        Matches
          (fun rolls otherRolls =>
            rolls.map Roll.expression = expressions text ∧
              otherRolls.map Roll.expression = expressions text)
          result image) ∧
    ∀ most : UInt64,
      (∃ calls after,
        step.EndsAfter ⟨limit, rolled, first⟩ calls
          (.error (.tooManyDice most)) after) ↔
      limit = some most ∧ most.toNat < UInt64.size - 1 ∧
        Overdraws most.toNat rolled.toNat (expressions text) := by
  obtain ⟨calls, result, after, ends, dice, counted, same, complete⟩ :=
    exists_endsAfter_of_settled processes settled firstInRange limit rolled
  obtain ⟨others, image, other, otherEnds, otherDice, otherCounted,
      otherSame, otherComplete⟩ :=
    exists_endsAfter_of_settled processes settled secondInRange limit rolled
  constructor
  · refine
      ⟨calls, others, result, image, after, other, ends, otherEnds,
        dice.trans otherDice.symm, counted.trans otherCounted.symm, ?_⟩
    apply Matches.of_map_eq (same.trans otherSame.symm)
    intro rolls otherRolls succeeds otherSucceeds
    exact ⟨complete rolls succeeds, otherComplete otherRolls otherSucceeds⟩
  · intro most
    rw [← Ledger.enter_eq_tooManyDice_iff ⟨limit, rolled, []⟩, ← same,
      map_eq_error_iff]
    constructor
    · intro failed
      obtain ⟨_, _, failing⟩ := failed
      exact map_eq_error_iff.mp (ends.unique failing).2.1
    · intro failed
      rw [failed] at ends
      exact ⟨calls, after, ends⟩

/-- In `2d6, 3d4 and d8b9` the limit is exceeded by the dice with four sides,
which are not rolled. The last threshold is not looked at. -/
theorem same_calls_before_excess :
    let text : Text := "2d6, 3d4 and d8b9".toList
    (∀ expression ∈ expressions text, expression.Settled) ∧
      ∃ calls others after other,
        (processDetailed text).EndsAfter
            (⟨some 4, 0, ⟨[], 0, 0⟩⟩ : Context WordTape) calls
            (.error (.tooManyDice 4)) after ∧
          (processDetailed text).EndsAfter
            (⟨some 4, 0, ⟨7⟩⟩ : Context Scrambler) others
            (.error (.tooManyDice 4)) other ∧
          calls.map Prod.fst = others.map Prod.fst ∧
          after.rolled = other.rolled := by
  intro text
  let front : List Expression := [⟨⟨2, by decide⟩, ⟨6, by decide⟩, 0, 0⟩]
  let last : Expression := ⟨⟨3, by decide⟩, ⟨4, by decide⟩, 0, 0⟩
  let back : List Expression := [⟨.one, ⟨8, by decide⟩, 0, 9⟩]
  have found : expressions text = front ++ last :: back := by
    decide +kernel
  have settled :
      ∀ expression ∈ expressions text,
        expression.brutal = 0 ∨ ¬ expression.Keepable := by
    rw [found]
    decide
  have overdraws : Overdraws 4 0 (expressions text) :=
    ⟨front, last, back, found, by decide, by decide⟩
  have processes :
      (processDetailed text).Processes text fun rolls =>
        .detailed (.ofTotals text (rolls.map Roll.total)) rolls :=
    Processes.processDetailed
  obtain ⟨⟨calls, others, result, image, after, other, ends, otherEnds,
      sameDice, sameCount, alike⟩, reported⟩ :=
    same_account_of_settled processes settled
      (fun (reached : WordTape) _ => Generator.inRange reached)
      (fun (reached : Scrambler) _ => Generator.inRange reached) (some 4) 0
  obtain ⟨_, _, failed⟩ := (reported 4).mpr ⟨rfl, by decide, overdraws⟩
  have outcome := (ends.unique failed).2.1
  cases alike with
  | ok rolls => contradiction
  | error error =>
      cases outcome
      exact
        ⟨settled, calls, others, after, other, ends, otherEnds, sameDice,
          sameCount⟩

end Step

end DiceNotation
