import DiceNotation.Proofs.Range

/-!
# Totals in 64-bit words

The totals once more, computed in 64-bit words: a sum or product that does not
fit ends the computation. No such thing happens, whatever faces are shown
(`RollM.totals_fit`), although the least total of some expression is the last
word there is.
-/

namespace DiceNotation

/-! ## Arithmetic that notices overflow -/

/-- The number as a 64-bit word, if there is one for it. -/
def fit64? (number : Nat) : Option UInt64 :=
  if number < UInt64.size then some (UInt64.ofNat number) else none

def addExact? (first second : UInt64) : Option UInt64 :=
  fit64? (first.toNat + second.toNat)

def mulExact? (first second : UInt64) : Option UInt64 :=
  fit64? (first.toNat * second.toNat)

theorem exists_fit64?_eq {number : Nat} (fits : number < UInt64.size) :
    ∃ word, fit64? number = some word ∧ word.toNat = number :=
  ⟨UInt64.ofNat number, if_pos fits, UInt64.toNat_ofNat_of_lt' fits⟩

section

variable {first second : UInt64} {left right : Nat}

theorem exists_addExact?_eq
    (sameLeft : first.toNat = left) (sameRight : second.toNat = right)
    (fits : left + right < UInt64.size) :
    ∃ sum,
      addExact? first second = some sum ∧ sum.toNat = left + right := by
  subst sameLeft sameRight
  exact exists_fit64?_eq fits

theorem exists_mulExact?_eq
    (sameLeft : first.toNat = left) (sameRight : second.toNat = right)
    (fits : left * right < UInt64.size) :
    ∃ product,
      mulExact? first second = some product ∧
        product.toNat = left * right := by
  subst sameLeft sameRight
  exact exists_fit64?_eq fits

end

/-! ## Bounds of an expression -/

theorem Positive.toNat_toUInt64 (number : Positive) :
    number.val.toUInt64.toNat = number.toNat :=
  UInt32.toNat_toUInt64 number.val

namespace Expression

variable (expression : Expression)

/-- The least total, unless a step towards it overflows. -/
def minTotal64? : Option UInt64 := do
  let least ← addExact? expression.brutal.toUInt64 1
  let dice ← mulExact? expression.count.val.toUInt64 least
  addExact? dice expression.addend.toUInt64

/-- The greatest total, unless a step towards it overflows. -/
def maxTotal64? : Option UInt64 := do
  let dice ←
    mulExact? expression.count.val.toUInt64 expression.sides.val.toUInt64
  addExact? dice expression.addend.toUInt64

theorem map_toNat_minTotal64? :
    expression.minTotal64?.map UInt64.toNat = some expression.minTotal := by
  have whole := expression.minTotal_lt
  have single :
      expression.brutal.toNat + 1 ≤
        expression.count.toNat * (expression.brutal.toNat + 1) :=
    Nat.le_mul_of_pos_left _ expression.count.toNat_pos
  rw [minTotal] at whole ⊢
  obtain ⟨least, leastFits, sameLeast⟩ :=
    exists_addExact?_eq (UInt32.toNat_toUInt64 expression.brutal)
      UInt64.toNat_one (by omega)
  obtain ⟨dice, diceFit, sameDice⟩ :=
    exists_mulExact?_eq expression.count.toNat_toUInt64 sameLeast
      (by omega)
  obtain ⟨total, totalFits, sameTotal⟩ :=
    exists_addExact?_eq sameDice
      (UInt32.toNat_toUInt64 expression.addend) whole
  simp only [minTotal64?, leastFits, diceFit, totalFits, Option.bind_eq_bind,
    Option.bind_some, Option.map_some, sameTotal]

theorem map_toNat_maxTotal64? :
    expression.maxTotal64?.map UInt64.toNat = some expression.maxTotal := by
  have whole := expression.maxTotal_lt
  rw [maxTotal] at whole ⊢
  obtain ⟨dice, diceFit, sameDice⟩ :=
    exists_mulExact?_eq expression.count.toNat_toUInt64
      expression.sides.toNat_toUInt64 (by omega)
  obtain ⟨total, totalFits, sameTotal⟩ :=
    exists_addExact?_eq sameDice
      (UInt32.toNat_toUInt64 expression.addend) whole
  simp only [maxTotal64?, diceFit, totalFits, Option.bind_eq_bind,
    Option.bind_some, Option.map_some, sameTotal]

/-- The greatest of the least totals is the last 64-bit word. -/
theorem isGreatest_minTotal :
    IsGreatest (Set.range minTotal) (UInt64.size - 1) := by
  constructor
  · exact
      ⟨⟨⟨0xFFFFFFFF, by decide⟩, Positive.one, 0xFFFFFFFF, 0xFFFFFFFF⟩,
        by decide⟩
  · intro total reached
    obtain ⟨expression, rfl⟩ := reached
    exact Nat.le_sub_one_of_lt expression.minTotal_lt

end Expression

/-! ## Totals of rolled dice -/

/-- Adds faces to a sum, unless it overflows. -/
def addFaces? : UInt64 → List UInt32 → Option UInt64
  | sum, [] => some sum
  | sum, face :: faces => do
      let sum ← addExact? sum face.toUInt64
      addFaces? sum faces

/-- The total of a roll, unless a step towards it overflows. -/
def Roll.total64? (roll : Roll) : Option UInt64 := do
  let faces ← addFaces? 0 (roll.dice.map Die.kept)
  addExact? faces roll.expression.addend.toUInt64

/-- There is room for so many faces, whichever they are. -/
def HasRoom (faces sum : Nat) : Prop :=
  sum + faces * (UInt32.size - 1) < UInt64.size

theorem HasRoom.addFace
    {faces sum : Nat} (room : HasRoom (faces + 1) sum) (face : UInt32) :
    HasRoom faces (sum + face.toNat) := by
  have small := face.toNat_lt_size
  rw [HasRoom, Nat.succ_mul] at room
  rw [HasRoom]
  omega

theorem HasRoom.lt
    {faces sum : Nat} (room : HasRoom faces sum) : sum < UInt64.size :=
  Nat.lt_of_le_of_lt (Nat.le_add_right _ _) room

/-- The addend leaves room for the dice of an expression. -/
theorem hasRoom_addend (count : Positive) (addend : UInt32) :
    HasRoom count.toNat addend.toNat := by
  have addendLt := addend.toNat_lt_size
  have countLt := count.toNat_lt
  have product :
      count.toNat * (UInt32.size - 1) ≤
        (UInt32.size - 1) * (UInt32.size - 1) :=
    Nat.mul_le_mul_right _ (Nat.le_sub_one_of_lt countLt)
  unfold HasRoom UInt64.size
  unfold UInt32.size at product addendLt ⊢
  omega

theorem exists_addFaces?_eq
    {faces : List UInt32} {sum : UInt64} {number : Nat}
    (same : sum.toNat = number) (room : HasRoom faces.length number) :
    ∃ total,
      addFaces? sum faces = some total ∧
        total.toNat = number + sumFaces faces := by
  induction faces generalizing sum number with
  | nil => exact ⟨sum, rfl, same⟩
  | cons face faces inductionHypothesis =>
      have rest := room.addFace face
      obtain ⟨next, nextFits, sameNext⟩ :=
        exists_addExact?_eq same (UInt32.toNat_toUInt64 face) rest.lt
      obtain ⟨total, totalFits, sameTotal⟩ :=
        inductionHypothesis sameNext rest
      refine ⟨total, ?_, ?_⟩
      · rw [addFaces?, nextFits]
        exact totalFits
      · rw [sameTotal, sumFaces, Nat.add_assoc]

theorem Roll.map_toNat_total64?
    {roll : Roll} {count : Positive}
    (length : roll.dice.length = count.toNat) :
    roll.total64?.map UInt64.toNat = some roll.total := by
  have room := hasRoom_addend count roll.expression.addend
  have kept : (roll.dice.map Die.kept).length = count.toNat :=
    (List.length_map _).trans length
  have small :
      sumFaces (roll.dice.map Die.kept) ≤
        count.toNat * (UInt32.size - 1) := by
    rw [← kept]
    apply sumFaces_le_length_mul
    exact fun face _ => Nat.le_sub_one_of_lt face.toNat_lt_size
  unfold HasRoom at room
  have fromZero : HasRoom (roll.dice.map Die.kept).length 0 := by
    rw [HasRoom, kept]
    omega
  obtain ⟨faces, facesFit, sameFaces⟩ :=
    exists_addFaces?_eq UInt64.toNat_zero fromZero
  rw [Nat.zero_add] at sameFaces
  obtain ⟨total, totalFits, sameTotal⟩ :=
    exists_addExact?_eq sameFaces
      (UInt32.toNat_toUInt64 roll.expression.addend) (by omega)
  simp only [Roll.total64?, facesFit, totalFits, Option.bind_eq_bind,
    Option.bind_some, Option.map_some, sameTotal, Roll.total]

namespace RollM

variable {σ : Type} [Roller σ]

/-- Rolls a number of dice and adds the kept faces to a sum, unless it
overflows. -/
def addDice64 (attempts : Nat) (sides : Positive) (brutal : UInt32) :
    Nat → UInt64 → RollM σ (Option UInt64)
  | 0, sum => return some sum
  | count + 1, sum => do
      let kept ← keepFace sides brutal (fun _ _ => ()) attempts ()
      match addExact? sum kept.2.toUInt64 with
      | some sum => addDice64 attempts sides brutal count sum
      | none => return none

/-- The total of an expression, unless a step towards it overflows. -/
def evaluate64 (attempts : Nat) (expression : Expression) :
    RollM σ (Option UInt64) := do
  checkThreshold expression
  charge expression.count.toNat
  addDice64 attempts expression.sides expression.brutal
    expression.count.toNat expression.addend.toUInt64

theorem map_toNat_addDice64
    (attempts : Nat) (sides : Positive) (brutal : UInt32)
    {count number : Nat} {sum : UInt64}
    (same : sum.toNat = number) (room : HasRoom count number) :
    (Option.map UInt64.toNat <$> addDice64 attempts sides brutal count sum :
        RollM σ (Option Nat)) =
      some <$> addDice attempts sides brutal count number := by
  induction count generalizing sum number with
  | zero => rw [addDice64, addDice, map_pure, map_pure, Option.map_some, same]
  | succ count inductionHypothesis =>
      rw [addDice64, addDice, map_bind, map_bind]
      congr 1
      funext kept
      have rest := room.addFace kept.2
      obtain ⟨next, nextFits, sameNext⟩ :=
        exists_addExact?_eq same (UInt32.toNat_toUInt64 kept.2) rest.lt
      rw [nextFits]
      exact inductionHypothesis sameNext rest

theorem map_toNat_evaluate64 (attempts : Nat) (expression : Expression) :
    (Option.map UInt64.toNat <$> evaluate64 attempts expression :
        RollM σ (Option Nat)) =
      some <$> evaluate attempts expression := by
  simp only [evaluate64, evaluate, map_bind]
  have sum :=
    map_toNat_addDice64 (σ := σ) attempts expression.sides expression.brutal
      (UInt32.toNat_toUInt64 expression.addend)
      (hasRoom_addend expression.count expression.addend)
  rw [sum]

/-- No total overflows a 64-bit word on the way to it: neither the bounds of
an expression nor what is rolled for it, whatever faces are shown and however
the run ends. -/
theorem totals_fit :
    (∀ expression : Expression,
      expression.minTotal64?.map UInt64.toNat = some expression.minTotal ∧
        expression.maxTotal64?.map UInt64.toNat =
          some expression.maxTotal) ∧
    IsGreatest (Set.range Expression.minTotal) (UInt64.size - 1) ∧
    ∀ (σ : Type) [Roller σ] (expression : Expression),
      (∀ attempts,
        (Option.map UInt64.toNat <$> evaluate64 attempts expression :
            RollM σ (Option Nat)) =
          some <$> evaluate attempts expression) ∧
      ∀ (context after : Context σ) (rolled : Roll),
        Returns (roll · expression) context (.ok rolled, after) →
          rolled.total64?.map UInt64.toNat = some rolled.total := by
  refine ⟨?_, Expression.isGreatest_minTotal, ?_⟩
  · intro expression
    exact
      ⟨expression.map_toNat_minTotal64?, expression.map_toNat_maxTotal64?⟩
  · intro σ _ expression
    constructor
    · intro attempts
      exact map_toNat_evaluate64 attempts expression
    · intro context after rolled returned
      exact Roll.map_toNat_total64? (dice_of_returns_roll returned).1

/-- Two dice with six faces that show the largest word twice, with the
largest addend. -/
theorem total_of_largest_faces :
    let expression : Expression :=
      ⟨⟨2, by decide⟩, ⟨6, by decide⟩, 0xFFFFFFFF, 0⟩
    let shown : FaceTape := ⟨[0xFFFFFFFF, 0xFFFFFFFF], 0⟩
    let die : Die := ⟨⟨6, by decide⟩, [], 0xFFFFFFFF⟩
    Returns (roll · expression) (Context.unlimited shown)
        (.ok ⟨expression, [die, die]⟩, ⟨none, 2, ⟨[], 2⟩⟩) ∧
      (Roll.mk expression [die, die]).total64?.map UInt64.toNat =
        some 12884901885 := by
  intro expression shown die
  have returned :
      Returns (roll · expression) (Context.unlimited shown)
        (.ok ⟨expression, [die, die]⟩, ⟨none, 2, ⟨[], 2⟩⟩) :=
    (returns_iff_exists (steady_roll expression)).mpr ⟨1, rfl⟩
  have total : (Roll.mk expression [die, die]).total = 12884901885 := by
    decide
  refine ⟨returned, ?_⟩
  rw [(totals_fit.2.2 FaceTape expression).2 _ _ _ returned, total]

end RollM

end DiceNotation
