import DiceNotation.Proofs.Completion
import DiceNotation.Proofs.Fairness
import Mathlib.Algebra.Group.Action.Defs
import Mathlib.Algebra.Order.BigOperators.Group.List
import Mathlib.Algebra.Order.Ring.Nat
import Mathlib.Order.Interval.Set.Defs

/-!
# The range of totals

Rolled with faces within range, an expression has every total from the least
to the greatest and no other (`RollM.totals_eq_range`). The least total needs
no such assumption, since only faces above the threshold are kept. Any faces
that a die has can be shown by a random generator
(`WordTape.exists_faces_eq`), and any sum within bounds is one of faces within
bounds (`exists_sumFaces_eq`).
-/

namespace DiceNotation

/-! ## Sums of faces -/

theorem sumFaces_eq_sum (faces : List UInt32) :
    sumFaces faces = (faces.map UInt32.toNat).sum := by
  induction faces with
  | nil => rfl
  | cons face faces inductionHypothesis =>
      rw [sumFaces, List.map_cons, List.sum_cons, inductionHypothesis]

theorem length_mul_le_sumFaces
    {faces : List UInt32} {low : Nat}
    (each : ∀ face ∈ faces, low ≤ face.toNat) :
    faces.length * low ≤ sumFaces faces := by
  have atLeast :=
    List.card_nsmul_le_sum (faces.map UInt32.toNat) low
      (List.forall_mem_map.mpr each)
  rwa [List.length_map, smul_eq_mul, ← sumFaces_eq_sum] at atLeast

theorem sumFaces_le_length_mul
    {faces : List UInt32} {high : Nat}
    (each : ∀ face ∈ faces, face.toNat ≤ high) :
    sumFaces faces ≤ faces.length * high := by
  have atMost :=
    List.sum_le_card_nsmul (faces.map UInt32.toNat) high
      (List.forall_mem_map.mpr each)
  rwa [List.length_map, smul_eq_mul, ← sumFaces_eq_sum] at atMost

theorem exists_sumFaces_eq
    {low high count sum : Nat} (le : low ≤ high)
    (word : high < UInt32.size) (lower : count * low ≤ sum)
    (upper : sum ≤ count * high) :
    ∃ faces : List UInt32,
      faces.length = count ∧
        (∀ face ∈ faces, low ≤ face.toNat ∧ face.toNat ≤ high) ∧
          sumFaces faces = sum := by
  -- The first face takes what the others cannot make up.
  induction count generalizing sum with
  | zero =>
      refine ⟨[], rfl, List.forall_mem_nil _, ?_⟩
      rw [Nat.zero_mul] at upper
      exact (Nat.le_zero.mp upper).symm
  | succ count inductionHypothesis =>
      rw [Nat.succ_mul] at lower upper
      have products : count * low ≤ count * high :=
        Nat.mul_le_mul_left count le
      obtain ⟨first, firstLow, firstHigh, restLow, restHigh, within⟩ :
          ∃ first,
            low ≤ first ∧ first ≤ high ∧ count * low ≤ sum - first ∧
              sum - first ≤ count * high ∧ first ≤ sum :=
        ⟨max low (sum - count * high), by omega, by omega, by omega,
          by omega, by omega⟩
      obtain ⟨others, length, each, total⟩ :=
        inductionHypothesis restLow restHigh
      have same : (UInt32.ofNat first).toNat = first :=
        UInt32.toNat_ofNat_of_lt' (Nat.lt_of_le_of_lt firstHigh word)
      refine ⟨UInt32.ofNat first :: others, ?_, ?_, ?_⟩
      · rw [List.length_cons, length]
      · intro face member
        rcases List.mem_cons.mp member with here | behind
        · rw [here, same]
          exact ⟨firstLow, firstHigh⟩
        · exact each face behind
      · rw [sumFaces, same, total]
        omega

/-- Any total between the bounds of an expression is one of as many faces as
it has dice, each above the threshold. -/
theorem Expression.exists_faces_of_mem_range
    (expression : Expression) {total : Nat}
    (keepable : expression.Keepable)
    (lower : expression.minTotal ≤ total)
    (upper : total ≤ expression.maxTotal) :
    ∃ shown : List UInt32,
      shown.length = expression.count.toNat ∧
        (∀ face ∈ shown,
          expression.brutal < face ∧ face ≤ expression.sides.val) ∧
          expression.addend.toNat + sumFaces shown = total := by
  rw [minTotal] at lower
  rw [maxTotal] at upper
  have someFace : expression.brutal.toNat + 1 ≤ expression.sides.toNat :=
    UInt32.lt_iff_toNat_lt.mp keepable
  obtain ⟨shown, length, each, sum⟩ :=
    exists_sumFaces_eq someFace expression.sides.toNat_lt
      (Nat.le_sub_of_add_le lower) (Nat.sub_le_of_le_add upper)
  refine ⟨shown, length, ?_, by omega⟩
  intro face member
  obtain ⟨above, le⟩ := each face member
  exact ⟨UInt32.lt_iff_toNat_lt.mpr above, UInt32.le_iff_toNat_le.mpr le⟩

/-! ## Faces of a random generator -/

/-- Every face of a die comes from some word. -/
theorem Generator.exists_face_eq
    {sides : Positive} {shown : UInt32} (positive : 0 < shown)
    (le : shown ≤ sides.val) :
    ∃ word, Accepts sides word ∧ face sides word = shown := by
  have many :
      {word | Accepts sides word ∧ face sides word = shown}.ncard ≠ 0 := by
    rw [ncard_words_of_face positive le]
    exact Nat.ne_of_gt (shares_pos sides)
  exact Set.nonempty_of_ncard_ne_zero many

namespace WordTape

theorem roll_cons_of_accepts
    {sides : Positive} {word : UInt32}
    (accepted : Generator.Accepts sides word) (ahead : List UInt32)
    (multiples draws : Nat) :
    Roller.roll (⟨word :: ahead, multiples, draws⟩ : WordTape) sides =
      (Generator.face sides word, ⟨ahead, multiples, draws + 1⟩) := by
  have found (attempts : Nat) :
      Generator.face? sides (attempts + 1)
          (⟨word :: ahead, multiples, draws⟩ : WordTape) =
        some
          (Generator.face sides word, ⟨ahead, multiples, draws + 1⟩) :=
    if_pos accepted
  have horizon :
      RecurrentGenerator.horizon
          (⟨word :: ahead, multiples, draws⟩ : WordTape) =
        ahead.length + UInt32.size + 1 :=
    Nat.add_right_comm ahead.length 1 UInt32.size
  simp only [Roller.roll, horizon, found, Option.get_some]

/-- All faces within range can be shown, one after the other. -/
theorem exists_faces_eq
    {sides : Positive} {shown : List UInt32}
    (each : ∀ face ∈ shown, 0 < face ∧ face ≤ sides.val) :
    ∃ tape : WordTape, Roller.faces sides tape shown.length = shown := by
  suffices words :
      ∃ ahead, ∀ draws,
        Roller.faces sides (⟨ahead, 0, draws⟩ : WordTape) shown.length =
          shown by
    obtain ⟨ahead, same⟩ := words
    exact ⟨⟨ahead, 0, 0⟩, same 0⟩
  induction shown with
  | nil => exact ⟨[], fun _ => rfl⟩
  | cons face shown inductionHypothesis =>
      obtain ⟨⟨positive, le⟩, others⟩ := List.forall_mem_cons.mp each
      obtain ⟨ahead, same⟩ := inductionHypothesis others
      obtain ⟨word, accepted, fromWord⟩ :=
        Generator.exists_face_eq positive le
      refine ⟨word :: ahead, ?_⟩
      intro draws
      have rolled := roll_cons_of_accepts accepted ahead 0 draws
      have first :
          Roller.faces sides (⟨word :: ahead, 0, draws⟩ : WordTape) 1 =
            [face] := by
        rw [Roller.faces, List.range_one, List.map_singleton, Roller.face,
          Roller.after, rolled, fromWord]
      have behind :
          Roller.after sides (⟨word :: ahead, 0, draws⟩ : WordTape) 1 =
            ⟨ahead, 0, draws + 1⟩ := by
        rw [Roller.after, Roller.after, rolled]
      rw [List.length_cons, Nat.add_comm, Roller.faces_add, first, behind,
        same, List.singleton_append]

end WordTape

/-! ## The totals of an expression -/

/-- Every face that the roller can come to show is one of the faces of the
die. -/
def Roller.InRangeFrom {σ : Type} [Roller σ] (source : σ) : Prop :=
  ∀ reached, Reachable source reached → ∀ sides : Positive,
    0 < (roll reached sides).1 ∧ (roll reached sides).1 ≤ sides.val

namespace RollM

open Context

variable {σ : Type} [Roller σ] {context after : Context σ}
  {expression : Expression} {total : Nat}

/-- Kept faces are above the threshold, whatever the roller shows. -/
theorem minTotal_le_of_returns_evaluate
    (returned :
      Returns (evaluate · expression) context (.ok total, after)) :
    expression.minTotal ≤ total := by
  obtain ⟨_, calls, takes, _, rfl, _⟩ := returns_evaluate_ok_iff.mp returned
  have above :
      ∀ face ∈
          Roller.kept expression.sides context.roller expression.brutal
            calls,
        expression.brutal.toNat + 1 ≤ face.toNat := by
    intro face member
    have selected := of_decide_eq_true (List.mem_filter.mp member).2
    exact UInt32.lt_iff_toNat_lt.mp selected
  have sum := length_mul_le_sumFaces above
  rw [takes.length_kept] at sum
  rw [Expression.minTotal]
  omega

theorem le_maxTotal_of_returns_evaluate
    (inRange : Roller.InRangeFrom context.roller)
    (returned :
      Returns (evaluate · expression) context (.ok total, after)) :
    total ≤ expression.maxTotal := by
  obtain ⟨_, calls, takes, _, rfl, _⟩ := returns_evaluate_ok_iff.mp returned
  have below :
      ∀ face ∈
          Roller.kept expression.sides context.roller expression.brutal
            calls,
        face.toNat ≤ expression.sides.toNat := by
    intro face member
    obtain ⟨call, _, same⟩ :=
      List.mem_map.mp (List.mem_of_mem_filter member)
    rw [← same]
    have reachable :=
      Roller.reachable_after expression.sides context.roller call
    exact
      UInt32.le_iff_toNat_le.mp
        (inRange _ reachable expression.sides).2
  have sum := sumFaces_le_length_mul below
  rw [takes.length_kept] at sum
  rw [Expression.maxTotal]
  omega

/-- If the first faces shown are all above the threshold, none is rolled
again. -/
theorem returns_evaluate_of_above
    (keepable : expression.Keepable)
    (affords : context.Affords expression.count.toNat)
    (above :
      ∀ face ∈
          Roller.faces expression.sides context.roller
            expression.count.toNat,
        expression.brutal < face) :
    Returns (evaluate · expression) context
      (.ok
        (expression.addend.toNat +
          sumFaces
            (Roller.faces expression.sides context.roller
              expression.count.toNat)),
        context.advanced expression.sides expression.count.toNat
          expression.count.toNat) := by
  have kept :
      Roller.kept expression.sides context.roller expression.brutal
          expression.count.toNat =
        Roller.faces expression.sides context.roller
          expression.count.toNat := by
    rw [Roller.kept, Roller.selected, List.filter_eq_self]
    exact fun face member => decide_eq_true (above face member)
  have takes :
      expression.Takes context.roller expression.count.toNat := by
    constructor
    · exact
        (congrArg List.length kept).trans (Roller.length_faces _ _ _)
    · intro calls (reached : _ = expression.count.toNat)
      have split :=
        Roller.length_kept_add_length_rejected expression.sides
          context.roller expression.brutal calls
      omega
  rw [← kept]
  exact returns_evaluate_of_takes keepable takes affords

/-- Every total between the bounds is rolled by some random generator, without
rolling a die again. -/
theorem exists_words_of_mem_range
    (keepable : expression.Keepable) (rolled : UInt64)
    (lower : expression.minTotal ≤ total)
    (upper : total ≤ expression.maxTotal) :
    ∃ source : WordTape,
      Roller.InRangeFrom source ∧
        (∀ face ∈
            Roller.faces expression.sides source expression.count.toNat,
          expression.brutal < face) ∧
        Returns (evaluate · expression) ⟨none, rolled, source⟩
          (.ok total,
            ⟨none, addCapped rolled expression.count.toNat,
              Roller.after expression.sides source
                expression.count.toNat⟩) := by
  obtain ⟨shown, length, each, sum⟩ :=
    expression.exists_faces_of_mem_range keepable lower upper
  have onDie : ∀ face ∈ shown, 0 < face ∧ face ≤ expression.sides.val := by
    intro face member
    obtain ⟨above, le⟩ := each face member
    exact ⟨UInt32.lt_of_le_of_lt UInt32.zero_le above, le⟩
  obtain ⟨source, same⟩ := WordTape.exists_faces_eq onDie
  rw [length] at same
  have above :
      ∀ face ∈
          Roller.faces expression.sides source expression.count.toNat,
        expression.brutal < face := by
    rw [same]
    exact fun face member => (each face member).1
  have unbounded :
      (⟨none, rolled, source⟩ : Context WordTape).Unbounded := nofun
  have returned :=
    returns_evaluate_of_above keepable (unbounded.affords _) above
  rw [same, sum] at returned
  exact
    ⟨source, fun reached _ sides => Generator.inRange reached sides, above,
      returned⟩

/-- Without a limit and with faces in range, the totals of an expression are
those from the least to the greatest. Each of them can be rolled by a random
generator, and without rolling a die again. The least is a bound whatever the
limit and the faces. -/
theorem totals_eq_range (expression : Expression) :
    (expression.Keepable →
      ∀ rolled : UInt64,
        {total |
            ∃ (σ : Type) (_ : Roller σ) (source : σ) (after : Context σ),
              Roller.InRangeFrom source ∧
                Returns (evaluate · expression) ⟨none, rolled, source⟩
                  (.ok total, after)} =
          Set.Icc expression.minTotal expression.maxTotal ∧
        ∀ total ∈ Set.Icc expression.minTotal expression.maxTotal,
          ∃ source : WordTape,
            Roller.InRangeFrom source ∧
              (∀ face ∈
                  Roller.faces expression.sides source
                    expression.count.toNat,
                expression.brutal < face) ∧
              Returns (evaluate · expression) ⟨none, rolled, source⟩
                (.ok total,
                  ⟨none, addCapped rolled expression.count.toNat,
                    Roller.after expression.sides source
                      expression.count.toNat⟩)) ∧
    ∀ (σ : Type) [Roller σ] (context after : Context σ) (total : Nat),
      Returns (evaluate · expression) context (.ok total, after) →
        expression.minTotal ≤ total := by
  constructor
  · intro keepable rolled
    refine ⟨Set.Subset.antisymm ?_ ?_, ?_⟩
    · intro total reached
      obtain ⟨σ, _, source, after, inRange, returned⟩ := reached
      exact
        Set.mem_Icc.mpr
          ⟨minTotal_le_of_returns_evaluate returned,
            le_maxTotal_of_returns_evaluate inRange returned⟩
    · intro total within
      obtain ⟨lower, upper⟩ := Set.mem_Icc.mp within
      obtain ⟨source, inRange, _, returned⟩ :=
        exists_words_of_mem_range keepable rolled lower upper
      exact ⟨WordTape, inferInstance, source, _, inRange, returned⟩
    · intro total within
      obtain ⟨lower, upper⟩ := Set.mem_Icc.mp within
      exact exists_words_of_mem_range keepable rolled lower upper
  · intro σ _ context after total returned
    exact minTotal_le_of_returns_evaluate returned

/-- The totals of `2d6+1b2` begin at seven, and words can be found for ten.
Faces beyond the die give more than its greatest total, but not less than its
least. -/
theorem totals_of_two_dice :
    let expression : Expression :=
      ⟨⟨2, by decide⟩, ⟨6, by decide⟩, 1, 2⟩
    let beyond : FaceTape := ⟨[0, 9, 100], 0⟩
    expression.Keepable ∧
      (∃ (source : WordTape) (after : Context WordTape),
        Returns (evaluate · expression) ⟨none, 5, source⟩
          (.ok 10, after)) ∧
      Returns (evaluate · expression) ⟨some 3, 0, beyond⟩
        (.ok 110, ⟨some 3, 3, ⟨[], 3⟩⟩) ∧
      expression.minTotal ≤ 110 := by
  intro expression beyond
  have keepable : expression.Keepable := by decide
  have range := totals_eq_range expression
  have within : 10 ∈ Set.Icc expression.minTotal expression.maxTotal :=
    Set.mem_Icc.mpr (by decide)
  obtain ⟨source, _, _, returned⟩ := (range.1 keepable 5).2 10 within
  have returnedBeyond :
      Returns (evaluate · expression) ⟨some 3, 0, beyond⟩
        (.ok 110, ⟨some 3, 3, ⟨[], 3⟩⟩) :=
    (returns_iff_exists (steady_evaluate expression)).mpr ⟨2, rfl⟩
  exact
    ⟨keepable, ⟨source, _, returned⟩, returnedBeyond,
      range.2 FaceTape _ _ 110 returnedBeyond⟩

end RollM

end DiceNotation
