import DiceNotation.Proofs.Draws
import DiceNotation.Proofs.Returning
import DiceNotation.Roller.Tape

/-!
# When an evaluation ends

Two nested loops roll the dice of an expression. Seen draw by draw they are
one loop: every face is either added to the sum and leaves one die less to
roll (`returnsAfter_succ_of_lt`), or it counts as one more die
(`returnsAfter_succ_of_le`). So the loop can be taken up after any draw
(`returns_addDice_advanced`). The number of draws follows from the faces alone,
and so does the draw at which a limit ends the loop.
-/

namespace DiceNotation.RollM

variable {σ : Type} [Roller σ] {context : Context σ} {sides : Positive}
  {brutal : UInt32}

/-! ## One draw -/

section

variable {γ : Type} {reject : γ → UInt32 → γ} {gathered : γ}
  {ending : Ending σ (γ × UInt32)}

/-- A face above the threshold is kept. -/
theorem runIn_keepFace_of_lt
    (above : brutal < context.shown sides) (attempts : Nat) :
    runIn context
        (keepFace sides brutal reject (attempts + 1) gathered) =
      some
        (.ok (gathered, context.shown sides), context.drawn sides) := by
  rw [keepFace, runIn_bind, runIn_draw]
  exact
    congrArg (runIn (context.drawn sides))
      (if_neg (UInt32.not_le.mpr above))

theorem returns_keepFace_of_lt (above : brutal < context.shown sides) :
    Returns (keepFace sides brutal reject · gathered) context ending ↔
      ending =
        (.ok (gathered, context.shown sides), context.drawn sides) := by
  rw [← returns_succ]
  constructor
  · intro returned
    obtain ⟨enough, ends⟩ := returned
    have here := ends enough (Nat.le_refl _)
    rw [runIn_keepFace_of_lt above] at here
    exact (Option.some.inj here).symm
  · intro equality
    rw [equality]
    exact ⟨0, fun attempts _ => runIn_keepFace_of_lt above attempts⟩

/-- A face that is not above the threshold counts as one more die. -/
theorem runIn_keepFace_of_le
    (below : context.shown sides ≤ brutal) (attempts : Nat) :
    runIn context
        (keepFace sides brutal reject (attempts + 1) gathered) =
      match ((context.drawn sides).count 1).excess? with
      | some error => some (.error error, (context.drawn sides).count 1)
      | none =>
          runIn ((context.drawn sides).count 1)
            (keepFace sides brutal reject attempts
              (reject gathered (context.shown sides))) := by
  rw [keepFace, runIn_bind, runIn_draw]
  simp only [if_pos below, runIn_bind, runIn_charge]
  cases ((context.drawn sides).count 1).excess? <;> rfl

/-- While the limit allows it, the next face is drawn. -/
theorem returns_keepFace_of_le
    (below : context.shown sides ≤ brutal)
    (affords : (context.drawn sides).Affords 1) :
    Returns (keepFace sides brutal reject · gathered) context ending ↔
      Returns
        (keepFace sides brutal reject ·
          (reject gathered (context.shown sides)))
        ((context.drawn sides).count 1) ending := by
  rw [Context.Affords] at affords
  rw [← returns_succ, Returns]
  simp only [runIn_keepFace_of_le below, affords]
  rfl

theorem returns_keepFace_of_excess
    {error : RollError} (below : context.shown sides ≤ brutal)
    (excess :
      ((context.drawn sides).count 1).excess? = some error) :
    Returns (keepFace sides brutal reject · gathered) context
      (.error error, (context.drawn sides).count 1) := by
  rw [← returns_succ]
  refine ⟨0, fun attempts _ => ?_⟩
  rw [runIn_keepFace_of_le below, excess]

end

/-! ## The dice of an expression, draw by draw -/

section

variable {count sum : Nat} {result : Except RollError Nat}
  {after : Context σ}

theorem returns_addDice_zero :
    Returns (addDice · sides brutal 0 sum) context (result, after) ↔
      (result, after) = (.ok sum, context) := by
  simp only [addDice, returns_const, runIn_pure, Option.some.injEq]
  exact eq_comm

theorem returns_addDice_succ :
    Returns (addDice · sides brutal (count + 1) sum) context
        (result, after) ↔
      (∃ kept between,
        Returns (keepFace sides brutal (fun _ _ => ()) · ()) context
            (.ok kept, between) ∧
          Returns (addDice · sides brutal count (sum + kept.2.toNat))
            between (result, after)) ∨
      ∃ error,
        Returns (keepFace sides brutal (fun _ _ => ()) · ()) context
            (.error error, after) ∧
          result = .error error :=
  returns_bind (steady_keepFace sides brutal _ ())
    fun _ => steady_addDice sides brutal count _

theorem returns_addDice_of_lt (above : brutal < context.shown sides) :
    Returns (addDice · sides brutal (count + 1) sum) context
        (result, after) ↔
      Returns
        (addDice · sides brutal count
          (sum + (context.shown sides).toNat))
        (context.drawn sides) (result, after) := by
  rw [returns_addDice_succ]
  simp only [returns_keepFace_of_lt above]
  constructor
  · intro ends
    rcases ends with
      ⟨kept, between, equality, returned⟩ | ⟨error, equality, _⟩
    · cases equality
      exact returned
    · cases equality
  · intro returned
    exact Or.inl ⟨_, _, rfl, returned⟩

theorem returns_addDice_of_le
    (below : context.shown sides ≤ brutal)
    (affords : (context.drawn sides).Affords 1) :
    Returns (addDice · sides brutal (count + 1) sum) context
        (result, after) ↔
      Returns (addDice · sides brutal (count + 1) sum)
        ((context.drawn sides).count 1) (result, after) := by
  rw [returns_addDice_succ, returns_addDice_succ]
  simp only [returns_keepFace_of_le below affords]

theorem returns_addDice_of_excess
    {error : RollError} (below : context.shown sides ≤ brutal)
    (excess :
      ((context.drawn sides).count 1).excess? = some error) :
    Returns (addDice · sides brutal (count + 1) sum) context
      (.error error, (context.drawn sides).count 1) := by
  rw [returns_addDice_succ]
  exact Or.inr ⟨error, returns_keepFace_of_excess below excess, rfl⟩

/-- The loop ends like this if it goes on after so many draws: with the dice
that are not kept by then, the faces of the others in the sum, and the rejected
faces counted. -/
def ReturnsAfter
    (sides : Positive) (brutal : UInt32) (count sum : Nat)
    (context : Context σ) (ending : Ending σ Nat) (calls : Nat) : Prop :=
  Returns
    (addDice · sides brutal
      (count - (Roller.kept sides context.roller brutal calls).length)
      (sum + sumFaces (Roller.kept sides context.roller brutal calls)))
    (context.advanced sides calls
      (Roller.rejected sides context.roller brutal calls).length)
    ending

section

variable {calls : Nat}
  (owing : (Roller.kept sides context.roller brutal calls).length < count)
include owing

/-- A draw that is kept leaves one die less. -/
theorem returnsAfter_succ_of_lt
    (above : brutal < Roller.face sides context.roller calls) :
    ReturnsAfter sides brutal count sum context (result, after)
        (calls + 1) ↔
      ReturnsAfter sides brutal count sum context (result, after)
        calls := by
  have grown := Roller.kept_succ_of_lt above
  have left :
      count - (Roller.kept sides context.roller brutal calls).length =
        (count -
          (Roller.kept sides context.roller brutal
            (calls + 1)).length) + 1 := by
    rw [grown, List.length_append, List.length_singleton]
    omega
  have sums :
      sumFaces (Roller.kept sides context.roller brutal (calls + 1)) =
        sumFaces (Roller.kept sides context.roller brutal calls) +
          (Roller.face sides context.roller calls).toNat := by
    rw [grown, sumFaces_append]
    rfl
  rw [ReturnsAfter, ReturnsAfter, left, returns_addDice_of_lt above, sums,
    Roller.rejected_succ_of_lt above, ← Nat.add_assoc]
  rfl

/-- A draw that is rejected leaves as many dice and is counted. -/
theorem returnsAfter_succ_of_le
    (below : Roller.face sides context.roller calls ≤ brutal)
    (affords :
      context.Affords
        (Roller.rejected sides context.roller brutal
          (calls + 1)).length) :
    ReturnsAfter sides brutal count sum context (result, after)
        (calls + 1) ↔
      ReturnsAfter sides brutal count sum context (result, after)
        calls := by
  have grown :=
    congrArg List.length (Roller.rejected_succ_of_le below)
  rw [List.length_append, List.length_singleton] at grown
  have oneAffords :
      ((context.advanced sides calls
        (Roller.rejected sides context.roller brutal
          calls).length).drawn sides).Affords 1 := by
    rw [grown] at affords
    rw [Context.Affords, Context.drawn_advanced, Context.count_advanced]
    exact affords
  obtain ⟨others, left⟩ :
      ∃ others,
        count - (Roller.kept sides context.roller brutal calls).length =
          others + 1 :=
    Nat.exists_eq_succ_of_ne_zero (by omega)
  rw [ReturnsAfter, ReturnsAfter, Roller.kept_succ_of_le below, left,
    returns_addDice_of_le below oneAffords, grown,
    Context.drawn_advanced, Context.count_advanced]

end

/-- The loop may be taken up after some draws in which not all dice have been
kept and the limit was not exceeded. -/
theorem returns_addDice_advanced
    (calls : Nat)
    (owing :
      ∀ fewer < calls,
        (Roller.kept sides context.roller brutal fewer).length < count)
    (affords :
      context.Affords
        (Roller.rejected sides context.roller brutal calls).length) :
    Returns (addDice · sides brutal count sum) context
        (result, after) ↔
      ReturnsAfter sides brutal count sum context (result, after)
        calls := by
  -- The state after `calls` draws is the invariant; one more draw keeps or
  -- rejects a face.
  induction calls with
  | zero =>
      have start :
          context.advanced sides 0
              (Roller.rejected sides context.roller brutal 0).length =
            context :=
        context.advanced_zero_zero sides
      rw [ReturnsAfter, start]
      rfl
  | succ calls inductionHypothesis =>
      have fewerRejected :=
        Roller.length_selected_mono sides context.roller (· ≤ brutal)
          (Nat.le_succ calls)
      have owed := owing calls (Nat.lt_succ_self calls)
      rw [inductionHypothesis
        (fun fewer lt => owing fewer (Nat.lt_succ_of_lt lt))
        (affords.mono fewerRejected)]
      by_cases above : brutal < Roller.face sides context.roller calls
      · exact (returnsAfter_succ_of_lt owed above).symm
      · exact
          (returnsAfter_succ_of_le owed (UInt32.not_lt.mp above)
            affords).symm

end

/-! ## The ways in which an evaluation ends -/

variable {expression : Expression}

theorem returns_evaluate_of_not_keepable
    (unkeepable : ¬ expression.Keepable) :
    Returns (evaluate · expression) context
      (.error
        (.invalidThreshold expression.brutal expression.sides.val),
        context) := by
  refine ⟨0, fun attempts _ => ?_⟩
  simp only [evaluate, checkThreshold, if_neg unkeepable]
  rfl

theorem runIn_evaluate
    (keepable : expression.Keepable) (attempts : Nat) :
    runIn context (evaluate attempts expression) =
      match (context.count expression.count.toNat).excess? with
      | some error =>
          some (.error error, context.count expression.count.toNat)
      | none =>
          runIn (context.count expression.count.toNat)
            (addDice attempts expression.sides expression.brutal
              expression.count.toNat expression.addend.toNat) := by
  rw [evaluate, checkThreshold, if_pos keepable, pure_bind, runIn_bind,
    runIn_charge]
  cases (context.count expression.count.toNat).excess? <;> rfl

theorem returns_evaluate_of_excess
    {error : RollError} (keepable : expression.Keepable)
    (excess :
      (context.count expression.count.toNat).excess? = some error) :
    Returns (evaluate · expression) context
      (.error error, context.count expression.count.toNat) := by
  refine ⟨0, fun attempts _ => ?_⟩
  rw [runIn_evaluate keepable, excess]

/-- An evaluation after some draws in which not all dice have been kept and
the limit was not exceeded. -/
theorem returns_evaluate_advanced
    {result : Except RollError Nat} {after : Context σ}
    (keepable : expression.Keepable) (calls : Nat)
    (owing :
      ∀ fewer < calls,
        (Roller.kept expression.sides context.roller expression.brutal
          fewer).length < expression.count.toNat)
    (affords :
      context.Affords
        (expression.count.toNat +
          (Roller.rejected expression.sides context.roller
            expression.brutal calls).length)) :
    Returns (evaluate · expression) context (result, after) ↔
      Returns
        (addDice · expression.sides expression.brutal
          (expression.count.toNat -
            (Roller.kept expression.sides context.roller
              expression.brutal calls).length)
          (expression.addend.toNat +
            sumFaces
              (Roller.kept expression.sides context.roller
                expression.brutal calls)))
        (context.advanced expression.sides calls
          (expression.count.toNat +
            (Roller.rejected expression.sides context.roller
              expression.brutal calls).length))
        (result, after) := by
  have countAffords :
      (context.count expression.count.toNat).excess? = none :=
    affords.mono (Nat.le_add_right _ _)
  have checked :
      Returns (evaluate · expression) context (result, after) ↔
        Returns
          (addDice · expression.sides expression.brutal
            expression.count.toNat expression.addend.toNat)
          (context.count expression.count.toNat) (result, after) := by
    rw [Returns]
    simp only [runIn_evaluate keepable, countAffords]
    rfl
  have laterAffords :
      (context.count expression.count.toNat).Affords
        (Roller.rejected expression.sides context.roller
          expression.brutal calls).length := by
    rw [Context.Affords, Context.count_count]
    exact affords
  rw [checked, ← Context.advanced_count]
  exact returns_addDice_advanced calls owing laterAffords

/-- Where the limit allows it, the dice are rolled until all are kept. -/
theorem returns_evaluate_of_takes
    {calls : Nat} (keepable : expression.Keepable)
    (takes : expression.Takes context.roller calls)
    (affords : context.Affords calls) :
    Returns (evaluate · expression) context
      (.ok
        (expression.addend.toNat +
          sumFaces
            (Roller.kept expression.sides context.roller
              expression.brutal calls)),
        context.advanced expression.sides calls calls) := by
  have allKept :
      (Roller.kept expression.sides context.roller expression.brutal
          calls).length =
        expression.count.toNat :=
    takes.1
  have split :=
    Roller.length_kept_add_length_rejected expression.sides
      context.roller expression.brutal calls
  rw [allKept] at split
  have owing (fewer : Nat) (lt : fewer < calls) :=
    Roller.length_selected_lt_of_isLeast takes lt
  rw [← split] at affords
  rw [returns_evaluate_advanced keepable calls owing affords, allKept,
    Nat.sub_self, split, returns_addDice_zero]

/-- Where the limit does not allow it, the first face that counts as too many
dice ends the evaluation. -/
theorem returns_evaluate_of_isLeast
    {error : RollError} {calls count : Nat} (keepable : expression.Keepable)
    (owing :
      ∀ fewer < calls,
        (Roller.kept expression.sides context.roller expression.brutal
          fewer).length < expression.count.toNat)
    (least :
      IsLeast
        {calls |
          (Roller.rejected expression.sides context.roller
            expression.brutal calls).length = count + 1}
        calls)
    (affords : context.Affords (expression.count.toNat + count))
    (excess :
      (context.count (expression.count.toNat + (count + 1))).excess? =
        some error) :
    Returns (evaluate · expression) context
      (.error error,
        context.advanced expression.sides calls
          (expression.count.toNat + (count + 1))) := by
  obtain ⟨before, rfl, rejectedBefore, rejected⟩ :=
    Roller.exists_eq_succ_of_isLeast least
  have below :
      Roller.face expression.sides context.roller before ≤
        expression.brutal :=
    of_decide_eq_true rejected
  have owed := owing before (Nat.lt_succ_self before)
  obtain ⟨others, left⟩ :
      ∃ others,
        expression.count.toNat -
            (Roller.kept expression.sides context.roller
              expression.brutal before).length =
          others + 1 :=
    Nat.exists_eq_succ_of_ne_zero (by omega)
  have sameCount :
      (Roller.rejected expression.sides context.roller expression.brutal
        before).length = count :=
    rejectedBefore
  have reached :
      context.advanced expression.sides (before + 1)
          (expression.count.toNat + (count + 1)) =
        ((context.advanced expression.sides before
          (expression.count.toNat + count)).drawn
            expression.sides).count 1 := by
    rw [Context.drawn_advanced, Context.count_advanced, Nat.add_assoc]
  rw [← sameCount] at affords
  rw [returns_evaluate_advanced keepable before
    (fun fewer lt => owing fewer (Nat.lt_succ_of_lt lt)) affords, left,
    sameCount, reached]
  apply returns_addDice_of_excess
  · exact below
  · rw [← reached]
    exact excess

/-- Where the dice take more draws than the limit allows, so many faces are
rejected that the limit is exceeded, and before that not all dice are kept. -/
theorem exists_isLeast_rejected
    {limit : UInt64}
    (fits :
      context.rolled.toNat + expression.count.toNat ≤ limit.toNat)
    (late :
      ∀ calls, expression.Takes context.roller calls →
        limit.toNat < context.rolled.toNat + calls) :
    ∃ calls,
      IsLeast
          {calls |
            (Roller.rejected expression.sides context.roller
              expression.brutal calls).length =
              limit.toNat - context.rolled.toNat -
                expression.count.toNat + 1}
          calls ∧
        ∀ fewer < calls,
          (Roller.kept expression.sides context.roller expression.brutal
            fewer).length < expression.count.toNat := by
  -- After this many draws not all dice are kept, so of one draw more at
  -- least as many faces are rejected as are asked for.
  let draws := limit.toNat - context.rolled.toNat
  have owing :
      ∀ fewer ≤ draws,
        (Roller.kept expression.sides context.roller expression.brutal
          fewer).length < expression.count.toNat := by
    intro fewer le
    by_contra reached
    obtain ⟨calls, callsLe, takes⟩ :=
      Roller.exists_isLeast (Nat.le_of_not_lt reached)
    have tooLate := late calls takes
    omega
  have split :=
    Roller.length_kept_add_length_rejected expression.sides
      context.roller expression.brutal (draws + 1)
  have grown :
      (Roller.kept expression.sides context.roller expression.brutal
          (draws + 1)).length ≤
        (Roller.kept expression.sides context.roller expression.brutal
          draws).length + 1 :=
    Roller.length_selected_succ_le expression.sides context.roller _ draws
  have owed := owing draws (Nat.le_refl draws)
  have passed :
      draws - expression.count.toNat + 1 ≤
        (Roller.rejected expression.sides context.roller
          expression.brutal (draws + 1)).length := by
    omega
  obtain ⟨calls, callsLe, least⟩ := Roller.exists_isLeast passed
  refine ⟨calls, least, ?_⟩
  intro fewer lt
  exact owing fewer (by omega)

/-- How an evaluation ends, by the faces that the roller shows. A threshold
that leaves no face fails. Otherwise the dice are rolled until all are kept if
the limit allows that many draws. If the limit does not even allow the dice of
the expression, nothing is drawn. If it allows these but not all draws, the
evaluation ends with the rejected face that makes the dice too many. -/
theorem returns_evaluate
    (context : Context σ) (expression : Expression) :
    (¬ expression.Keepable →
      Returns (evaluate · expression) context
        (.error
          (.invalidThreshold expression.brutal expression.sides.val),
          context)) ∧
    (expression.Keepable →
      (∀ calls, expression.Takes context.roller calls →
        (context.Unbounded ∨
          ∃ limit, context.limit = some limit ∧
            context.rolled.toNat + calls ≤ limit.toNat) →
          Returns (evaluate · expression) context
            (.ok
              (expression.addend.toNat +
                sumFaces
                  (Roller.kept expression.sides context.roller
                    expression.brutal calls)),
              ⟨context.limit, Context.addCapped context.rolled calls,
                Roller.after expression.sides context.roller calls⟩)) ∧
      ∀ limit, context.limit = some limit → limit.toNat < UInt64.size - 1 →
        (limit.toNat <
            context.rolled.toNat + expression.count.toNat →
          Returns (evaluate · expression) context
            (.error (.tooManyDice limit),
              ⟨context.limit,
                Context.addCapped context.rolled
                  expression.count.toNat,
                context.roller⟩)) ∧
        (context.rolled.toNat + expression.count.toNat ≤
            limit.toNat →
          (∀ calls, expression.Takes context.roller calls →
            limit.toNat < context.rolled.toNat + calls) →
          ∃ calls,
            IsLeast
                {calls |
                  (Roller.rejected expression.sides context.roller
                    expression.brutal calls).length =
                    limit.toNat - context.rolled.toNat -
                      expression.count.toNat + 1}
                calls ∧
              Returns (evaluate · expression) context
                (.error (.tooManyDice limit),
                  ⟨context.limit, limit + 1,
                    Roller.after expression.sides context.roller
                      calls⟩))) := by
  refine ⟨returns_evaluate_of_not_keepable, fun keepable => ⟨?_, ?_⟩⟩
  · intro calls takes allowed
    apply returns_evaluate_of_takes keepable takes
    rcases allowed with unbounded | ⟨limit, present, fits⟩
    · exact unbounded.affords calls
    · exact Context.affords_of_le present fits
  · intro limit present bound
    constructor
    · intro excess
      exact
        returns_evaluate_of_excess keepable
          (Context.excess?_count_of_lt present bound excess)
    · intro fits late
      obtain ⟨calls, least, owing⟩ :=
        exists_isLeast_rejected fits late
      refine ⟨calls, least, ?_⟩
      have stopped :=
        returns_evaluate_of_isLeast keepable owing least
          (Context.affords_of_le present (by omega))
          (Context.excess?_count_of_lt present bound (by omega))
      have total :
          Context.addCapped context.rolled
              (expression.count.toNat +
                (limit.toNat - context.rolled.toNat -
                  expression.count.toNat + 1)) =
            limit + 1 := by
        rw [← UInt64.toNat_inj, Context.toNat_addCapped,
          UInt64.toNat_add, UInt64.toNat_one]
        unfold UInt64.size at bound ⊢
        omega
      rw [Context.advanced, total] at stopped
      exact stopped

/-- With a limit of three, `2d6b5` is not done after the faces 6, 3 and 4. -/
theorem evaluate_stops_at_third_face :
    ∃ calls,
      IsLeast
          {calls |
            (Roller.rejected ⟨6, by decide⟩ (⟨[6, 3, 4], 0⟩ : FaceTape) 5
              calls).length = 2}
          calls ∧
        Returns (evaluate · ⟨⟨2, by decide⟩, ⟨6, by decide⟩, 0, 5⟩)
          (Context.limited 3 (⟨[6, 3, 4], 0⟩ : FaceTape))
          (.error (.tooManyDice 3),
            ⟨some 3, 4,
              Roller.after ⟨6, by decide⟩ (⟨[6, 3, 4], 0⟩ : FaceTape)
                calls⟩) := by
  have late :
      ∀ calls,
        (⟨⟨2, by decide⟩, ⟨6, by decide⟩, 0, 5⟩ : Expression).Takes
            (⟨[6, 3, 4], 0⟩ : FaceTape) calls →
          3 < 0 + calls := by
    intro calls takes
    by_contra few
    have mono :=
      Roller.length_selected_mono ⟨6, by decide⟩
        (⟨[6, 3, 4], 0⟩ : FaceTape) (5 < ·)
        (show calls ≤ 3 by omega)
    have atThree :
        (Roller.selected ⟨6, by decide⟩ (⟨[6, 3, 4], 0⟩ : FaceTape)
          (5 < ·) 3).length = 1 := by
      decide
    have reached :
        (Roller.selected ⟨6, by decide⟩ (⟨[6, 3, 4], 0⟩ : FaceTape)
          (5 < ·) calls).length = 2 :=
      takes.1
    omega
  have ends :=
    returns_evaluate (Context.limited 3 (⟨[6, 3, 4], 0⟩ : FaceTape))
      ⟨⟨2, by decide⟩, ⟨6, by decide⟩, 0, 5⟩
  exact
    ((ends.2 (by decide)).2 3 rfl (by decide)).2 (by decide) late

end DiceNotation.RollM
