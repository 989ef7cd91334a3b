import DiceNotation.Proofs.Completion

/-!
# Dice rolled together or in turn

Dice of one kind can be rolled as one expression or as two, one after the
other. The faces are the same (`Expression.Pools.takes_iff`). A whole
expression counts all of its dice before the first is drawn, where of the
parts the second is counted only after the first is done; but either way as
many dice are counted in the end as are drawn, and it is the end that the
limit decides (`RollM.returns_evaluate_pooled`).
-/

namespace DiceNotation

/-- The sum of two positive words, if it is a word. -/
def Positive.add (first second : Positive)
    (fits : first.toNat + second.toNat < UInt32.size) : Positive where
  val := first.val + second.val
  pos := by
    have positive := first.toNat_pos
    rw [UInt32.lt_iff_toNat_lt, UInt32.toNat_add]
    exact
      Nat.lt_of_lt_of_eq (Nat.lt_of_lt_of_le positive (Nat.le_add_right _ _))
        (Nat.mod_eq_of_lt fits).symm

theorem Positive.toNat_add
    {first second : Positive}
    (fits : first.toNat + second.toNat < UInt32.size) :
    (first.add second fits).toNat = first.toNat + second.toNat :=
  (UInt32.toNat_add first.val second.val).trans (Nat.mod_eq_of_lt fits)

/-! ## The draws of pooled dice -/

/-- For so many selected faces it takes the calls for the first of them, and
from there on the calls for the others. -/
theorem Roller.isLeast_add_iff
    {σ : Type} [Roller σ] {sides : Positive} {source : σ}
    {select : UInt32 → Bool} {first second calls : Nat} :
    IsLeast
        {calls |
          (selected sides source select calls).length = first + second}
        calls ↔
      ∃ start rest,
        IsLeast
            {calls | (selected sides source select calls).length = first}
            start ∧
          IsLeast
              {calls |
                (selected sides (after sides source start) select
                  calls).length = second}
              rest ∧
            calls = start + rest := by
  have split (start more : Nat)
      (reached : (selected sides source select start).length = first) :
      (selected sides source select (start + more)).length =
        first +
          (selected sides (after sides source start) select
            more).length := by
    rw [selected_add, List.length_append, reached]
  constructor
  · intro least
    have whole :
        (selected sides source select calls).length = first + second :=
      least.1
    have passed :
        first ≤ (selected sides source select calls).length := by
      rw [whole]
      exact Nat.le_add_right first second
    obtain ⟨start, le, leastFirst⟩ := exists_isLeast passed
    obtain ⟨rest, rfl⟩ := Nat.exists_eq_add_of_le le
    rw [split start rest leastFirst.1] at whole
    refine ⟨start, rest, leastFirst, ⟨Nat.add_left_cancel whole, ?_⟩, rfl⟩
    intro other (reached : _ = second)
    have notFewer :=
      least.2
        ((split start other leastFirst.1).trans
          (congrArg (first + ·) reached))
    exact Nat.le_of_add_le_add_left notFewer
  · intro parts
    obtain ⟨start, rest, leastFirst, leastSecond, rfl⟩ := parts
    constructor
    · exact
        (split start rest leastFirst.1).trans
          (congrArg (first + ·) leastSecond.1)
    · intro other (reached : _ = first + second)
      have passed :
          first ≤ (selected sides source select other).length := by
        rw [reached]
        exact Nat.le_add_right first second
      obtain ⟨fewer, le, leastAgain⟩ := exists_isLeast passed
      obtain ⟨more, rfl⟩ := Nat.exists_eq_add_of_le le
      rw [leastAgain.unique leastFirst] at reached ⊢
      rw [split start more leastFirst.1] at reached
      exact
        Nat.add_le_add_left
          (leastSecond.2 (Nat.add_left_cancel reached)) start

theorem Roller.sumFaces_kept_add
    {σ : Type} [Roller σ] (sides : Positive) (source : σ)
    (brutal : UInt32) (calls more : Nat) :
    sumFaces (kept sides source brutal (calls + more)) =
      sumFaces (kept sides source brutal calls) +
        sumFaces
          (kept sides (after sides source calls) brutal more) := by
  rw [kept, selected_add, sumFaces_append]
  rfl

theorem Context.affords_advanced_iff
    {σ : Type} [Roller σ] {context : Context σ} {sides : Positive}
    {calls amount more : Nat} :
    (context.advanced sides calls amount).Affords more ↔
      context.Affords (amount + more) := by
  rw [Affords, count_advanced]
  rfl

/-- The dice of both expressions, and both addends, are those of a third
one. -/
structure Expression.Pools (whole first second : Expression) : Prop where
  count : whole.count.toNat = first.count.toNat + second.count.toNat
  addend : whole.addend.toNat = first.addend.toNat + second.addend.toNat
  sides_first : first.sides = whole.sides
  sides_second : second.sides = whole.sides
  brutal_first : first.brutal = whole.brutal
  brutal_second : second.brutal = whole.brutal

namespace Expression.Pools

variable {whole first second : Expression}
  (pools : whole.Pools first second)
include pools

theorem keepable_first : first.Keepable ↔ whole.Keepable := by
  rw [Keepable, Keepable, pools.sides_first, pools.brutal_first]

theorem keepable_second : second.Keepable ↔ whole.Keepable := by
  rw [Keepable, Keepable, pools.sides_second, pools.brutal_second]

theorem takes_iff {σ : Type} [Roller σ] {source : σ} {calls : Nat} :
    whole.Takes source calls ↔
      ∃ start rest,
        first.Takes source start ∧
          second.Takes (Roller.after whole.sides source start) rest ∧
            calls = start + rest := by
  rw [Takes, pools.count]
  simp only [Takes, pools.sides_first, pools.sides_second,
    pools.brutal_first, pools.brutal_second]
  exact Roller.isLeast_add_iff

/-- The limit comes too early if it does so for the first part, or for the
second after the first. -/
theorem late_iff
    {σ : Type} [Roller σ] {context : Context σ} {limit : UInt64}
    (present : context.limit = some limit)
    (bound : limit.toNat < UInt64.size - 1) :
    whole.Late context limit ↔
      first.Late context limit ∨
        ∃ calls,
          first.Takes context.roller calls ∧ context.Affords calls ∧
            second.Late (context.advanced whole.sides calls calls)
              limit := by
  have counted (calls : Nat) :
      (context.advanced whole.sides calls calls).rolled.toNat =
        min (context.rolled.toNat + calls) (UInt64.size - 1) :=
    Context.toNat_addCapped context.rolled calls
  constructor
  · intro late
    by_cases lateFirst : first.Late context limit
    · exact Or.inl lateFirst
    · unfold Late at lateFirst
      push Not at lateFirst
      obtain ⟨calls, takes, fits⟩ := lateFirst
      refine
        Or.inr ⟨calls, takes, Context.affords_of_le present fits, ?_⟩
      intro more takesMore
      have takesBoth :=
        pools.takes_iff.mpr ⟨calls, more, takes, takesMore, rfl⟩
      have lateBoth := late (calls + more) takesBoth
      rw [counted]
      omega
  · intro late all takesAll
    obtain ⟨calls, more, takes, takesMore, rfl⟩ :=
      pools.takes_iff.mp takesAll
    rcases late with lateFirst | ⟨again, takesAgain, _, lateSecond⟩
    · rw [← Nat.add_assoc]
      exact Nat.lt_add_right more (lateFirst calls takes)
    · rw [takesAgain.unique takes] at lateSecond
      have lateMore := lateSecond more takesMore
      rw [counted] at lateMore
      omega

end Expression.Pools

namespace RollM

open Context

variable {σ : Type} [Roller σ] {context after : Context σ}

section

variable {whole first second : Expression}
  (pools : whole.Pools first second)
include pools

theorem returns_evaluate_ok_iff_of_pools {total : Nat} :
    Returns (evaluate · whole) context (.ok total, after) ↔
      ∃ start rest between,
        Returns (evaluate · first) context (.ok start, between) ∧
          Returns (evaluate · second) between (.ok rest, after) ∧
            total = start + rest := by
  simp only [returns_evaluate_ok_iff, pools.keepable_first,
    pools.keepable_second, pools.takes_iff]
  constructor
  · intro returned
    obtain ⟨keepable, _, ⟨calls, more, takes, takesMore, rfl⟩, affords,
      rfl, rfl⟩ := returned
    refine
      ⟨_, _, context.advanced whole.sides calls calls,
        ⟨keepable, calls, takes, affords.mono (Nat.le_add_right _ _), rfl,
          by rw [pools.sides_first]⟩,
        ⟨keepable, more, takesMore, affords_advanced_iff.mpr affords, rfl,
          by rw [pools.sides_second, advanced_advanced]⟩,
        ?_⟩
    rw [pools.addend, Roller.sumFaces_kept_add, pools.sides_first,
      pools.sides_second, pools.brutal_first, pools.brutal_second]
    exact Nat.add_add_add_comm _ _ _ _
  · intro returned
    obtain ⟨_, _, _, ⟨keepable, calls, takes, _, rfl, rfl⟩,
      ⟨_, more, takesMore, affordsMore, rfl, rfl⟩, rfl⟩ := returned
    rw [pools.sides_first] at takesMore affordsMore ⊢
    refine
      ⟨keepable, _, ⟨calls, more, takes, takesMore, rfl⟩,
        affords_advanced_iff.mp affordsMore, ?_, ?_⟩
    · rw [pools.addend, Roller.sumFaces_kept_add, pools.sides_second,
        pools.brutal_first, pools.brutal_second]
      exact Nat.add_add_add_comm _ _ _ _
    · rw [pools.sides_second, advanced_advanced]

theorem exists_returns_evaluate_error_iff_of_pools {error : RollError} :
    (∃ after,
      Returns (evaluate · whole) context (.error error, after)) ↔
      (∃ after,
        Returns (evaluate · first) context (.error error, after)) ∨
      ∃ start between,
        Returns (evaluate · first) context (.ok start, between) ∧
          ∃ after,
            Returns (evaluate · second) between (.error error, after) := by
  constructor
  · intro failed
    rcases exists_returns_evaluate_error_iff.mp failed with
      ⟨unkeepable, rfl⟩ | ⟨keepable, limit, present, bound, rfl, late⟩
    · rw [← pools.keepable_first] at unkeepable
      rw [← pools.brutal_first, ← pools.sides_first]
      exact
        Or.inl ⟨context, returns_evaluate_of_not_keepable unkeepable⟩
    · have keepableFirst := pools.keepable_first.mpr keepable
      have keepableSecond := pools.keepable_second.mpr keepable
      rcases (pools.late_iff present bound).mp late with
        lateFirst | ⟨calls, takes, affords, lateSecond⟩
      · exact
          Or.inl
            (exists_returns_evaluate_of_late keepableFirst present bound
              lateFirst)
      · have begun :=
          returns_evaluate_of_takes keepableFirst takes affords
        rw [pools.sides_first] at begun
        exact
          Or.inr
            ⟨_, _, begun,
              exists_returns_evaluate_of_late keepableSecond present
                bound lateSecond⟩
  · intro failed
    rcases failed with failed | ⟨start, between, begun, failed⟩
    · rcases exists_returns_evaluate_error_iff.mp failed with
        ⟨unkeepable, rfl⟩ | ⟨keepable, limit, present, bound, rfl, late⟩
      · rw [pools.keepable_first] at unkeepable
        rw [pools.brutal_first, pools.sides_first]
        exact ⟨context, returns_evaluate_of_not_keepable unkeepable⟩
      · rw [pools.keepable_first] at keepable
        exact
          exists_returns_evaluate_of_late keepable present bound
            ((pools.late_iff present bound).mpr (Or.inl late))
    · obtain ⟨keepable, calls, takes, affords, _, rfl⟩ :=
        returns_evaluate_ok_iff.mp begun
      rw [pools.keepable_first] at keepable
      rw [pools.sides_first] at failed
      rcases exists_returns_evaluate_error_iff.mp failed with
        ⟨unkeepable, _⟩ | ⟨_, limit, present, bound, rfl, late⟩
      · rw [pools.keepable_second] at unkeepable
        contradiction
      · have sameLimit : context.limit = some limit := present
        exact
          exists_returns_evaluate_of_late keepable sameLimit bound
            ((pools.late_iff sameLimit bound).mpr
              (Or.inr ⟨calls, takes, affords, late⟩))

end

/-- Dice of one kind add up: together they are rolled to a total just where
they are rolled to two totals in turn, and then the totals add up and the same
context is left. Together they fail just where the first or the second part
fails, with the same error. -/
theorem returns_evaluate_pooled
    {count more : Positive}
    (counts : count.toNat + more.toNat < UInt32.size)
    {addend further : UInt32}
    (addends : addend.toNat + further.toNat < UInt32.size)
    (sides : Positive) (brutal : UInt32) (context : Context σ) :
    let whole : Expression :=
      ⟨count.add more counts, sides, addend + further, brutal⟩
    let first : Expression := ⟨count, sides, addend, brutal⟩
    let second : Expression := ⟨more, sides, further, brutal⟩
    (∀ total after,
      Returns (evaluate · whole) context (.ok total, after) ↔
        ∃ start rest between,
          Returns (evaluate · first) context (.ok start, between) ∧
            Returns (evaluate · second) between (.ok rest, after) ∧
              total = start + rest) ∧
    ∀ error,
      (∃ after,
        Returns (evaluate · whole) context (.error error, after)) ↔
        (∃ after,
          Returns (evaluate · first) context (.error error, after)) ∨
        ∃ start between,
          Returns (evaluate · first) context (.ok start, between) ∧
            ∃ after,
              Returns (evaluate · second) between
                (.error error, after) := by
  intro whole first second
  have sum : (addend + further).toNat = addend.toNat + further.toNat :=
    (UInt32.toNat_add addend further).trans (Nat.mod_eq_of_lt addends)
  have pools : whole.Pools first second :=
    ⟨Positive.toNat_add counts, sum, rfl, rfl, rfl, rfl⟩
  exact
    ⟨fun _ _ => returns_evaluate_ok_iff_of_pools pools,
      fun _ => exists_returns_evaluate_error_iff_of_pools pools⟩

/-- The dice of `d6+1b2` and `2d6+3b2` are those of `3d6+4b2`. A limit of two
lets the first die be rolled alone, but not the three together. -/
theorem three_dice_in_turn :
    let six : Positive := ⟨6, by decide⟩
    let two : Positive := ⟨2, by decide⟩
    let tape : FaceTape := ⟨[1, 4, 2, 2, 5, 6], 0⟩
    let whole : Expression :=
      ⟨Positive.one.add two (by decide), six, 1 + 3, 2⟩
    Returns (evaluate · whole) (Context.limited 6 tape)
        (.ok 19, ⟨some 6, 6, ⟨[], 6⟩⟩) ∧
      ∃ after,
        Returns (evaluate · whole) (Context.limited 2 tape)
          (.error (.tooManyDice 2), after) := by
  intro six two tape whole
  have begun :
      Returns (evaluate · ⟨.one, six, 1, 2⟩) (Context.limited 6 tape)
        (.ok 5, ⟨some 6, 2, ⟨[2, 2, 5, 6], 2⟩⟩) :=
    (returns_iff_exists (steady_evaluate _)).mpr ⟨2, rfl⟩
  have ended :
      Returns (evaluate · ⟨two, six, 3, 2⟩)
        (⟨some 6, 2, ⟨[2, 2, 5, 6], 2⟩⟩ : Context FaceTape)
        (.ok 14, ⟨some 6, 6, ⟨[], 6⟩⟩) :=
    (returns_iff_exists (steady_evaluate _)).mpr ⟨3, rfl⟩
  have allowed :
      Returns (evaluate · ⟨.one, six, 1, 2⟩) (Context.limited 2 tape)
        (.ok 5, ⟨some 2, 2, ⟨[2, 2, 5, 6], 2⟩⟩) :=
    (returns_iff_exists (steady_evaluate _)).mpr ⟨2, rfl⟩
  have refused :
      Returns (evaluate · ⟨two, six, 3, 2⟩)
        (⟨some 2, 2, ⟨[2, 2, 5, 6], 2⟩⟩ : Context FaceTape)
        (.error (.tooManyDice 2), ⟨some 2, 4, ⟨[2, 2, 5, 6], 2⟩⟩) :=
    (returns_iff_exists (steady_evaluate _)).mpr ⟨1, rfl⟩
  have pooled (limit : UInt64) :=
    returns_evaluate_pooled
      (show Positive.one.toNat + two.toNat < UInt32.size by decide)
      (show (1 : UInt32).toNat + (3 : UInt32).toNat < UInt32.size by decide)
      six 2 (Context.limited limit tape)
  exact
    ⟨((pooled 6).1 19 _).mpr ⟨5, 14, _, begun, ended, rfl⟩,
      ((pooled 2).2 _).mpr (Or.inr ⟨5, _, allowed, _, refused⟩)⟩

end RollM

end DiceNotation
