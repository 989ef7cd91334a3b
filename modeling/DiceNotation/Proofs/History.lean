import DiceNotation.Proofs.Curtailing
import DiceNotation.Proofs.Draws
import DiceNotation.Proofs.Evaluation
import DiceNotation.Roller.Tape

/-!
# Rolls as histories

A successful roll accounts for every face that the roller showed while it was
made: the faces of its dice, one die after the other, are the faces of the
calls in their order (`RollM.dice_of_returns_roll`). One die takes one call
more than it has rejected faces, and all dice together take as many calls as
dice are counted.
-/

namespace DiceNotation

/-- The die was rolled up to its first face above the threshold. -/
def Die.StopsAbove (brutal : UInt32) (die : Die) : Prop :=
  ∃ low last,
    die.faces = low ++ [last] ∧ (∀ face ∈ low, face ≤ brutal) ∧
      brutal < last

theorem Die.getLast?_faces (die : Die) :
    die.faces.getLast? = some die.kept :=
  List.getLast?_concat

theorem Roller.after_recorded
    {σ : Type} [Roller σ] (sides : Positive) (source : σ) (calls : Nat) :
    after sides (Recorded.start source) calls =
      ⟨after sides source calls,
        (faces sides source calls).map fun face => (sides, face)⟩ := by
  induction calls with
  | zero => rfl
  | succ calls inductionHypothesis =>
      rw [after, inductionHypothesis, faces_succ, List.map_append]
      rfl

namespace RollM

open Context

variable {σ : Type} {context after : Context σ}

theorem eq_of_runIn_checkThreshold
    {expression : Expression} {value : Unit}
    (checked :
      runIn context (checkThreshold expression) =
        some (.ok value, after)) :
    after = context := by
  rw [checkThreshold] at checked
  split at checked
  · cases checked
    rfl
  · cases checked

theorem eq_of_runIn_charge
    {amount : Nat} {value : Unit}
    (charged : runIn context (charge amount) = some (.ok value, after)) :
    after = context.count amount := by
  rw [runIn_charge] at charged
  split at charged
  · cases charged
  · cases charged
    rfl

variable [Roller σ] {attempts : Nat} {sides : Positive} {brutal : UInt32}

/-- The faces of one die are the next that the roller shows. Each but the last
counts as one more die. -/
theorem exists_low_of_runIn_keepFace
    {gathered rejected : List UInt32} {kept : UInt32}
    (ends :
      runIn context
          (keepFace sides brutal (fun faces face => face :: faces) attempts
            gathered) =
        some (.ok (rejected, kept), after)) :
    ∃ low,
      rejected = low.reverse ++ gathered ∧ (∀ face ∈ low, face ≤ brutal) ∧
        brutal < kept ∧
        low ++ [kept] =
          Roller.faces sides context.roller (low.length + 1) ∧
        after = context.advanced sides (low.length + 1) low.length := by
  induction attempts generalizing context gathered with
  | zero => cases ends
  | succ attempts inductionHypothesis =>
      by_cases above : brutal < context.shown sides
      · rw [keepFace, runIn_bind, runIn_draw] at ends
        simp only [if_neg (UInt32.not_le.mpr above)] at ends
        cases ends
        have reached : context.drawn sides = context.advanced sides 1 0 := by
          rw [← drawn_advanced, advanced_zero_zero]
        exact ⟨[], rfl, List.forall_mem_nil _, above, rfl, reached⟩
      · have below := UInt32.not_lt.mp above
        rw [runIn_keepFace_of_le below] at ends
        cases excess : ((context.drawn sides).count 1).excess? with
        | some error =>
            rw [excess] at ends
            cases ends
        | none =>
            rw [excess] at ends
            obtain ⟨low, gatheredAll, lowest, aboveKept, shown, reached⟩ :=
              inductionHypothesis ends
            have first :
                (context.drawn sides).count 1 =
                  context.advanced sides 1 1 := by
              rw [← advanced_zero_zero sides context, drawn_advanced,
                count_advanced, advanced_advanced]
            refine
              ⟨context.shown sides :: low, ?_, ?_, aboveKept, ?_, ?_⟩
            · rw [gatheredAll, List.reverse_cons, List.append_assoc]
              rfl
            · intro face member
              rcases List.mem_cons.mp member with same | later
              · rw [same]
                exact below
              · exact lowest face later
            · have together :=
                Roller.faces_add sides context.roller 1 (low.length + 1)
              rw [List.cons_append, shown, List.length_cons,
                Nat.add_comm (low.length + 1) 1, together]
              rfl
            · rw [reached, first, advanced_advanced, List.length_cons,
                Nat.add_comm 1, Nat.add_comm 1]

/-- The faces of the dice, one die after the other, are the next that the
roller shows. -/
theorem exists_dice_of_runIn_collectDice
    {count : Nat} {before rolled : List Die}
    (ends :
      runIn context (collectDice attempts sides brutal count before) =
        some (.ok rolled, after)) :
    ∃ dice,
      rolled = before.reverse ++ dice ∧ dice.length = count ∧
        (∀ die ∈ dice, die.sides = sides ∧ die.StopsAbove brutal) ∧
        dice.flatMap Die.faces =
          Roller.faces sides context.roller
            (count + (dice.flatMap Die.rejected).length) ∧
        after =
          context.advanced sides
            (count + (dice.flatMap Die.rejected).length)
            (dice.flatMap Die.rejected).length := by
  induction count generalizing context before with
  | zero =>
      cases ends
      refine
        ⟨[], (List.append_nil _).symm, rfl, List.forall_mem_nil _, rfl, ?_⟩
      exact (advanced_zero_zero sides _).symm
  | succ count inductionHypothesis =>
      rw [collectDice] at ends
      obtain ⟨⟨rejected, kept⟩, between, begun, ended⟩ :=
        exists_of_runIn_bind_eq_ok ends
      obtain ⟨low, gatheredAll, lowest, aboveKept, shown, reached⟩ :=
        exists_low_of_runIn_keepFace begun
      obtain ⟨dice, collected, length, stops, others, final⟩ :=
        inductionHypothesis ended
      have rejections : rejected.reverse = low := by
        rw [gatheredAll, List.append_nil, List.reverse_reverse]
      have allRejected :
          ((⟨sides, low, kept⟩ :: dice : List Die).flatMap
              Die.rejected).length =
            low.length + (dice.flatMap Die.rejected).length := by
        rw [List.flatMap_cons, List.length_append]
      have calls :
          count + 1 +
              (low.length + (dice.flatMap Die.rejected).length) =
            low.length + 1 +
              (count + (dice.flatMap Die.rejected).length) := by
        omega
      rw [rejections] at collected
      refine ⟨⟨sides, low, kept⟩ :: dice, ?_, ?_, ?_, ?_, ?_⟩
      · rw [collected, List.reverse_cons, List.append_assoc]
        rfl
      · rw [List.length_cons, length]
      · have stopsFirst :
            (⟨sides, low, kept⟩ : Die).StopsAbove brutal :=
          ⟨low, kept, rfl, lowest, aboveKept⟩
        exact List.forall_mem_cons.mpr ⟨⟨rfl, stopsFirst⟩, stops⟩
      · rw [allRejected, calls, Roller.faces_add, ← shown,
          List.flatMap_cons, others, reached]
        rfl
      · rw [allRejected, calls, final, reached, advanced_advanced]

theorem runIn_roll_eq_ok
    {expression : Expression} {rolled : Roll}
    (ends :
      runIn context (roll attempts expression) = some (.ok rolled, after)) :
    rolled.expression = expression ∧
      runIn (context.count expression.count.toNat)
          (collectDice attempts expression.sides expression.brutal
            expression.count.toNat []) =
        some (.ok rolled.dice, after) := by
  rw [roll] at ends
  obtain ⟨_, _, checked, charging⟩ := exists_of_runIn_bind_eq_ok ends
  obtain ⟨_, _, charged, collecting⟩ := exists_of_runIn_bind_eq_ok charging
  obtain ⟨dice, _, collected, returned⟩ :=
    exists_of_runIn_bind_eq_ok collecting
  rw [eq_of_runIn_checkThreshold checked] at charged
  rw [eq_of_runIn_charge charged] at collected
  cases returned
  exact ⟨rfl, collected⟩

/-- The dice of a roll, and how far the context has come with them. -/
theorem dice_of_returns_roll
    {expression : Expression} {rolled : Roll}
    (returned :
      Returns (roll · expression) context (.ok rolled, after)) :
    rolled.dice.length = expression.count.toNat ∧
      (∀ die ∈ rolled.dice,
        die.sides = expression.sides ∧
          die.StopsAbove expression.brutal) ∧
      rolled.dice.flatMap Die.faces =
        Roller.faces expression.sides context.roller
          (expression.count.toNat + rolled.rerolls) ∧
      after =
        context.advanced expression.sides
          (expression.count.toNat + rolled.rerolls)
          (expression.count.toNat + rolled.rerolls) := by
  obtain ⟨enough, ends⟩ := returned
  obtain ⟨_, collected⟩ := runIn_roll_eq_ok (ends enough (Nat.le_refl _))
  obtain ⟨dice, same, length, stops, shown, reached⟩ :=
    exists_dice_of_runIn_collectDice collected
  rw [List.reverse_nil, List.nil_append] at same
  rw [Roll.rerolls, same]
  rw [advanced_count] at reached
  exact ⟨length, stops, shown, reached⟩

/-- The calls of the roller are for the faces of the dice and no others. -/
theorem endsAfter_of_returns_roll
    {expression : Expression} {rolled : Roll}
    (returned :
      Returns (roll · expression) context (.ok rolled, after)) :
    (Step.roll expression).EndsAfter context
      ((rolled.dice.flatMap Die.faces).map fun face =>
        (expression.sides, face))
      (.ok (.rolled rolled)) after := by
  have performed :
      Returns ((Step.roll expression).perform ·) context
        (.ok (.rolled rolled), after) :=
    returned.bind ((returns_const _).mpr rfl)
  obtain ⟨calls, recorded⟩ := Step.exists_endsAfter performed
  have ends := recorded
  simp only [Step.EndsAfter, Step.perform, bind_pure_comp,
    returns_map (steady_roll expression)] at ends
  obtain ⟨error | again, rolledAgain, same⟩ := ends
  · cases same
  · cases same
    obtain ⟨_, _, shown, _⟩ := dice_of_returns_roll returned
    obtain ⟨_, _, _, reached⟩ := dice_of_returns_roll rolledAgain
    have allCalls := congrArg (fun context => context.roller.calls) reached
    have made :
        calls =
          (rolled.dice.flatMap Die.faces).map fun face =>
            (expression.sides, face) := by
      rw [shown]
      refine allCalls.trans ?_
      simp only [advanced, Context.map, Roller.after_recorded]
    rw [← made]
    exact recorded

/-- A successful roll has the dice of its expression, each with at least one
face, of which the last is the only one above the threshold. Their faces, in
order, are those of all calls of the roller; as many calls are counted, and
the last faces make up the total. -/
theorem history_of_returns_roll
    {expression : Expression} {rolled : Roll}
    (returned :
      Returns (roll · expression) context (.ok rolled, after)) :
    let calls := expression.count.toNat + rolled.rerolls
    rolled.expression = expression ∧
      rolled.dice.length = expression.count.toNat ∧
      (∀ die ∈ rolled.dice,
        die.sides = expression.sides ∧ die.StopsAbove expression.brutal) ∧
      (Step.roll expression).EndsAfter context
        ((rolled.dice.flatMap Die.faces).map fun face =>
          (expression.sides, face))
        (.ok (.rolled rolled)) after ∧
      rolled.dice.flatMap Die.faces =
        Roller.faces expression.sides context.roller calls ∧
      (rolled.dice.flatMap Die.faces).length = calls ∧
      rolled.total =
        expression.addend.toNat +
          sumFaces
            (rolled.dice.filterMap fun die => die.faces.getLast?) ∧
      after =
        ⟨context.limit, addCapped context.rolled calls,
          Roller.after expression.sides context.roller calls⟩ := by
  have sameExpression := expression_of_returns_roll returned
  obtain ⟨length, stops, shown, reached⟩ := dice_of_returns_roll returned
  have shownLength := congrArg List.length shown
  rw [Roller.length_faces] at shownLength
  have lastFaces :
      (rolled.dice.filterMap fun die => die.faces.getLast?) =
        rolled.dice.map Die.kept := by
    simp only [Die.getLast?_faces, List.filterMap_eq_map']
  refine
    ⟨sameExpression, length, stops, endsAfter_of_returns_roll returned,
      shown, shownLength, ?_, reached⟩
  rw [Roll.total, sameExpression, lastFaces, Nat.add_comm]

/-- For `2d6+3b2` the faces 1, 4, 2, 2 and 5 are two dice. -/
theorem five_calls_for_two_dice :
    let six : Positive := ⟨6, by decide⟩
    let expression : Expression := ⟨⟨2, by decide⟩, six, 3, 2⟩
    let rolled : Roll := ⟨expression, [⟨six, [1], 4⟩, ⟨six, [2, 2], 5⟩]⟩
    let context : Context FaceTape := ⟨some 20, 7, ⟨[1, 4, 2, 2, 5, 6], 0⟩⟩
    let after : Context FaceTape := ⟨some 20, 12, ⟨[6], 5⟩⟩
    Returns (roll · expression) context (.ok rolled, after) ∧
      (Step.roll expression).EndsAfter context
        [(six, 1), (six, 4), (six, 2), (six, 2), (six, 5)]
        (.ok (.rolled rolled)) after ∧
      rolled.total = 3 + sumFaces [4, 5] := by
  let six : Positive := ⟨6, by decide⟩
  let expression : Expression := ⟨⟨2, by decide⟩, six, 3, 2⟩
  have returned :
      Returns (roll · expression)
        (⟨some 20, 7, ⟨[1, 4, 2, 2, 5, 6], 0⟩⟩ : Context FaceTape)
        (.ok ⟨expression, [⟨six, [1], 4⟩, ⟨six, [2, 2], 5⟩]⟩,
          ⟨some 20, 12, ⟨[6], 5⟩⟩) :=
    (returns_iff_exists (steady_roll expression)).mpr ⟨3, rfl⟩
  obtain ⟨_, _, _, ends, _, _, total, _⟩ := history_of_returns_roll returned
  exact ⟨returned, ends, total⟩

end RollM

end DiceNotation
