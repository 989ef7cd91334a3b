import DiceNotation.Proofs.Counting
import Mathlib.Order.Bounds.Basic

/-!
# The faces that a roller shows

The faces of successive calls with the same die, and how many of the first of
them are kept or rejected. These numbers begin at zero and grow by at most one
with every call, so they take every value up to any that they reach
(`exists_isLeast`).
-/

namespace DiceNotation

namespace Roller

variable {σ : Type} [Roller σ] (sides : Positive) (source : σ)

/-- The source after a number of calls. -/
def after : Nat → σ
  | 0 => source
  | calls + 1 => (roll (after calls) sides).2

/-- What the call with this number returns, counted from zero. -/
def face (call : Nat) : UInt32 :=
  (roll (after sides source call) sides).1

/-- What the first calls return, in order. -/
def faces (calls : Nat) : List UInt32 :=
  (List.range calls).map (face sides source)

/-- Those of the first faces that are selected. -/
def selected (select : UInt32 → Bool) (calls : Nat) : List UInt32 :=
  (faces sides source calls).filter select

/-- Those of the first faces that are above the threshold. -/
def kept (brutal : UInt32) (calls : Nat) : List UInt32 :=
  selected sides source (brutal < ·) calls

/-- Those of the first faces that are not above the threshold. -/
def rejected (brutal : UInt32) (calls : Nat) : List UInt32 :=
  selected sides source (· ≤ brutal) calls

/-- The sources to which calls with dice of all kinds can lead. -/
inductive Reachable : σ → Prop
  | start : Reachable source
  | roll {reached : σ} (rolled : Reachable reached) (sides : Positive) :
      Reachable (roll reached sides).2

theorem reachable_after (calls : Nat) :
    Reachable source (after sides source calls) := by
  induction calls with
  | zero => exact Reachable.start
  | succ calls inductionHypothesis =>
      exact Reachable.roll inductionHypothesis sides

theorem Reachable.trans
    {source between reached : σ} (first : Reachable source between)
    (second : Reachable between reached) : Reachable source reached := by
  induction second with
  | start => exact first
  | roll _ sides inductionHypothesis =>
      exact Reachable.roll inductionHypothesis sides

theorem faces_succ (calls : Nat) :
    faces sides source (calls + 1) =
      faces sides source calls ++ [face sides source calls] := by
  rw [faces, List.range_succ, List.map_append]
  rfl

theorem after_add (first second : Nat) :
    after sides source (first + second) =
      after sides (after sides source first) second := by
  induction second with
  | zero => rfl
  | succ second inductionHypothesis =>
      rw [← Nat.add_assoc, after, after, inductionHypothesis]

theorem face_add (first second : Nat) :
    face sides source (first + second) =
      face sides (after sides source first) second := by
  rw [face, face, after_add]

/-- Later faces are those of the source that the first calls leave behind. -/
theorem faces_add (first second : Nat) :
    faces sides source (first + second) =
      faces sides source first ++
        faces sides (after sides source first) second := by
  induction second with
  | zero => exact (List.append_nil _).symm
  | succ second inductionHypothesis =>
      rw [← Nat.add_assoc, faces_succ, faces_succ, inductionHypothesis,
        face, face, after_add, List.append_assoc]

theorem length_faces (calls : Nat) :
    (faces sides source calls).length = calls := by
  rw [faces, List.length_map, List.length_range]

section Selected

variable (select : UInt32 → Bool)

theorem selected_succ (calls : Nat) :
    selected sides source select (calls + 1) =
      selected sides source select calls ++
        if select (face sides source calls) then
          [face sides source calls]
        else
          [] := by
  rw [selected, faces_succ, List.filter_append, List.filter_cons]
  rfl

theorem selected_add (first second : Nat) :
    selected sides source select (first + second) =
      selected sides source select first ++
        selected sides (after sides source first) select second := by
  rw [selected, faces_add, List.filter_append]
  rfl

theorem length_selected_succ (calls : Nat) :
    (selected sides source select (calls + 1)).length =
      (selected sides source select calls).length +
        if select (face sides source calls) then 1 else 0 := by
  rw [selected_succ, List.length_append]
  cases select (face sides source calls) with
  | false => rfl
  | true => rfl

theorem length_selected_succ_le (calls : Nat) :
    (selected sides source select (calls + 1)).length ≤
      (selected sides source select calls).length + 1 := by
  rw [length_selected_succ]
  split <;> omega

theorem length_selected_mono {fewer calls : Nat} (le : fewer ≤ calls) :
    (selected sides source select fewer).length ≤
      (selected sides source select calls).length := by
  induction calls, le using Nat.le_induction with
  | base => exact Nat.le_refl _
  | succ calls _ inductionHypothesis =>
      rw [length_selected_succ]
      omega

variable {sides source select}

/-- Before the least number of calls there are fewer selected faces. -/
theorem length_selected_lt_of_isLeast
    {count calls fewer : Nat}
    (least :
      IsLeast
        {calls | (selected sides source select calls).length = count}
        calls)
    (lt : fewer < calls) :
    (selected sides source select fewer).length < count := by
  have le :=
    length_selected_mono sides source select (Nat.le_of_lt lt)
  have reached : (selected sides source select calls).length = count :=
    least.1
  have different :
      (selected sides source select fewer).length ≠ count := by
    intro same
    have notFewer := least.2 same
    omega
  omega

/-- A number of selected faces that is passed is also reached. -/
theorem exists_isLeast
    {count calls : Nat}
    (passed : count ≤ (selected sides source select calls).length) :
    ∃ fewer ≤ calls,
      IsLeast
        {calls | (selected sides source select calls).length = count}
        fewer := by
  induction calls with
  | zero =>
      have nothing : count = 0 := Nat.le_zero.mp passed
      refine ⟨0, Nat.le_refl 0, nothing.symm, ?_⟩
      exact fun other _ => Nat.zero_le other
  | succ calls inductionHypothesis =>
      by_cases before :
          count ≤ (selected sides source select calls).length
      · obtain ⟨fewer, le, least⟩ := inductionHypothesis before
        exact ⟨fewer, Nat.le_succ_of_le le, least⟩
      · have grown := length_selected_succ sides source select calls
        have reached :
            (selected sides source select (calls + 1)).length =
              count := by
          split at grown <;> omega
        refine ⟨calls + 1, Nat.le_refl _, reached, ?_⟩
        intro other (same : _ = count)
        by_contra less
        have mono :=
          length_selected_mono sides source select
            (Nat.lt_succ_iff.mp (Nat.lt_of_not_le less))
        omega

/-- The last of the calls that it takes shows a selected face. -/
theorem exists_eq_succ_of_isLeast
    {count calls : Nat}
    (least :
      IsLeast
        {calls | (selected sides source select calls).length = count + 1}
        calls) :
    ∃ before,
      calls = before + 1 ∧
        (selected sides source select before).length = count ∧
          select (face sides source before) = true := by
  cases calls with
  | zero =>
      have impossible : 0 = count + 1 := least.1
      contradiction
  | succ before =>
      have reached :
          (selected sides source select (before + 1)).length =
            count + 1 :=
        least.1
      have short :=
        length_selected_lt_of_isLeast least (Nat.lt_succ_self before)
      have grown := length_selected_succ sides source select before
      split at grown
      · next selected => exact ⟨before, rfl, by omega, selected⟩
      · omega

end Selected

section Threshold

variable (brutal : UInt32) (calls : Nat)

/-- Every face is either kept or rejected. -/
theorem length_kept_add_length_rejected :
    (kept sides source brutal calls).length +
        (rejected sides source brutal calls).length = calls := by
  have complement :
      (rejected sides source brutal calls).length =
        (faces sides source calls).countP fun face =>
          ¬ decide (brutal < face) := by
    rw [rejected, selected, ← List.countP_eq_length_filter]
    apply List.countP_congr
    intro face _
    simp
  rw [complement, kept, selected, ← List.countP_eq_length_filter,
    ← List.length_eq_countP_add_countP, length_faces]

variable {sides source brutal calls}

theorem kept_succ_of_lt
    (above : brutal < face sides source calls) :
    kept sides source brutal (calls + 1) =
      kept sides source brutal calls ++ [face sides source calls] := by
  rw [kept, selected_succ, if_pos (decide_eq_true above)]
  rfl

theorem kept_succ_of_le
    (below : face sides source calls ≤ brutal) :
    kept sides source brutal (calls + 1) =
      kept sides source brutal calls := by
  have notAbove : ¬ brutal < face sides source calls :=
    UInt32.not_lt.mpr below
  rw [kept, selected_succ, if_neg (by simpa using notAbove),
    List.append_nil]
  rfl

theorem rejected_succ_of_lt
    (above : brutal < face sides source calls) :
    rejected sides source brutal (calls + 1) =
      rejected sides source brutal calls := by
  rw [rejected, selected_succ, if_neg (by simpa using above),
    List.append_nil]
  rfl

theorem rejected_succ_of_le
    (below : face sides source calls ≤ brutal) :
    rejected sides source brutal (calls + 1) =
      rejected sides source brutal calls ++ [face sides source calls] := by
  rw [rejected, selected_succ, if_pos (decide_eq_true below)]
  rfl

end Threshold

end Roller

/-- The number of calls of the roller after which all dice of the expression
are kept. -/
def Expression.Takes
    {σ : Type} [Roller σ] (expression : Expression) (source : σ)
    (calls : Nat) : Prop :=
  IsLeast
    {calls |
      (Roller.kept expression.sides source expression.brutal calls).length =
        expression.count.toNat}
    calls

theorem Expression.Takes.length_kept
    {σ : Type} [Roller σ] {expression : Expression} {source : σ}
    {calls : Nat} (takes : expression.Takes source calls) :
    (Roller.kept expression.sides source expression.brutal calls).length =
      expression.count.toNat :=
  takes.1

namespace Context

variable {σ : Type} [Roller σ]

/-- The context after `calls` draws, when `amount` more dice are counted. -/
def advanced
    (sides : Positive) (calls amount : Nat) (context : Context σ) :
    Context σ :=
  ⟨context.limit, addCapped context.rolled amount,
    Roller.after sides context.roller calls⟩

section

variable (sides : Positive) (context : Context σ)

theorem advanced_zero_zero : context.advanced sides 0 0 = context := by
  rw [advanced, addCapped_zero]
  rfl

theorem advanced_count (calls first second : Nat) :
    (context.count first).advanced sides calls second =
      context.advanced sides calls (first + second) := by
  rw [advanced, advanced, ← addCapped_addCapped]
  rfl

theorem drawn_advanced (calls amount : Nat) :
    (context.advanced sides calls amount).drawn sides =
      context.advanced sides (calls + 1) amount :=
  rfl

theorem count_advanced (calls first second : Nat) :
    (context.advanced sides calls first).count second =
      context.advanced sides calls (first + second) := by
  rw [advanced, advanced, count, addCapped_addCapped]

/-- Draws and counts add up. -/
theorem advanced_advanced (calls more first second : Nat) :
    (context.advanced sides calls first).advanced sides more second =
      context.advanced sides (calls + more) (first + second) := by
  rw [advanced, advanced, advanced, addCapped_addCapped,
    Roller.after_add]

end

end Context

end DiceNotation
