import DiceNotation.Proofs.Coupling
import DiceNotation.Roller.Tape
import Mathlib.Data.Set.Card
import Mathlib.Order.Interval.Finset.Nat

/-!
# Fair faces

The words that give one face are those whose product with the number of sides
lies in a window as wide as the number of sides times `shares`. A window that
wide holds `shares` multiples of the number of sides, wherever it begins
(`exists_first_multiple`), so every face comes from equally many words
(`Generator.ncard_words_of_face`). Acceptance and faces, defined by natural
numbers, can be computed with words of 32 and 64 bits: nothing overflows
(`Generator.accepts_iff_lowerHalf_le_zone`, `Generator.face_eq_upperHalf`).
-/

namespace DiceNotation

/-! ## Multiples in a window -/

theorem exists_mul_eq_add (low : Nat) {sides : Nat} (pos : 0 < sides) :
    ∃ factor past, factor * sides = low + past ∧ past < sides := by
  have division := Nat.div_add_mod' (low + (sides - 1)) sides
  have remainder := Nat.mod_lt (low + (sides - 1)) pos
  exact
    ⟨(low + (sides - 1)) / sides,
      sides - 1 - (low + (sides - 1)) % sides, by omega, by omega⟩

theorem mul_lt_iff_lt_of_mul_eq_add
    {low past factor sides : Nat} (product : factor * sides = low + past)
    (small : past < sides) (number : Nat) :
    number * sides < low ↔ number < factor := by
  constructor
  · intro below
    by_contra reached
    have products :=
      Nat.mul_le_mul_right sides (Nat.le_of_not_lt reached)
    omega
  · intro fewer
    have products := Nat.mul_le_mul_right sides (Nat.succ_le_of_lt fewer)
    rw [Nat.succ_mul] at products
    omega

/-- In a window of `width` times a number there are `width` multiples of it,
one after the other. -/
theorem exists_first_multiple
    (low width : Nat) {sides : Nat} (positive : 0 < sides) :
    ∃ first, ∀ number,
      low ≤ number * sides ∧ number * sides < low + sides * width ↔
        number ∈ Set.Ico first (first + width) := by
  obtain ⟨first, past, product, small⟩ := exists_mul_eq_add low positive
  have productBehind :
      (first + width) * sides = low + sides * width + past := by
    rw [Nat.add_mul, product, Nat.mul_comm width]
    omega
  refine ⟨first, ?_⟩
  intro number
  rw [Set.mem_Ico, mul_lt_iff_lt_of_mul_eq_add productBehind small,
    ← Nat.not_lt, mul_lt_iff_lt_of_mul_eq_add product small, Nat.not_lt]

namespace Generator

/-! ## Acceptance and faces in words -/

/-- The zeros in front of the highest bit of the number of sides. -/
def leadingZeros (sides : Positive) : UInt32 :=
  UInt32.ofBitVec sides.val.toBitVec.clz

/-- The greatest lower half of a product that is accepted. -/
def zone (sides : Positive) : UInt32 :=
  (sides.val <<< leadingZeros sides) - 1

def product (sides : Positive) (word : UInt32) : UInt64 :=
  word.toUInt64 * sides.val.toUInt64

def upperHalf (product : UInt64) : UInt32 := (product >>> 32).toUInt32

def lowerHalf (product : UInt64) : UInt32 := product.toUInt32

variable (sides : Positive) (word : UInt32)

theorem leadingZeros_bounds :
    (leadingZeros sides).toNat < 32 ∧
      2 ^ (31 - (leadingZeros sides).toNat) ≤ sides.toNat ∧
        sides.toNat < 2 ^ (32 - (leadingZeros sides).toNat) := by
  have nonzero : sides.val.toBitVec ≠ 0#32 := by
    intro zero
    have positive := sides.toNat_pos
    have value : sides.toNat = sides.val.toBitVec.toNat := rfl
    rw [value, zero] at positive
    contradiction
  have few := BitVec.clz_lt_iff_ne_zero.mpr nonzero
  exact
    ⟨BitVec.lt_def.mp few,
      BitVec.two_pow_sub_clz_le_toNat_of_ne_zero (by decide) nonzero,
      BitVec.toNat_lt_two_pow_sub_clz⟩

theorem shares_eq : shares sides = 2 ^ (leadingZeros sides).toNat := by
  obtain ⟨few, lower, upper⟩ := leadingZeros_bounds sides
  have highest : sides.toNat.log2 = 31 - (leadingZeros sides).toNat := by
    rw [Nat.log2_eq_iff (Nat.ne_of_gt sides.toNat_pos)]
    refine ⟨lower, ?_⟩
    have width :
        31 - (leadingZeros sides).toNat + 1 =
          32 - (leadingZeros sides).toNat := by
      omega
    rwa [width]
  have count :
      31 - (31 - (leadingZeros sides).toNat) =
        (leadingZeros sides).toNat := by
    omega
  rw [shares, Nat.one_shiftLeft, highest, count]

theorem mul_shares_lt : sides.toNat * shares sides < UInt32.size := by
  obtain ⟨few, _, upper⟩ := leadingZeros_bounds sides
  have whole :
      2 ^ (32 - (leadingZeros sides).toNat) *
          2 ^ (leadingZeros sides).toNat =
        UInt32.size := by
    rw [← Nat.pow_add, Nat.sub_add_cancel (Nat.le_of_lt few)]
  rw [shares_eq, ← whole]
  exact Nat.mul_lt_mul_of_pos_right upper (Nat.two_pow_pos _)

theorem toNat_zone : (zone sides).toNat = sides.toNat * shares sides - 1 := by
  have few := (leadingZeros_bounds sides).1
  have fits := mul_shares_lt sides
  have positive : 0 < sides.toNat * shares sides :=
    Nat.mul_pos sides.toNat_pos (shares_pos sides)
  have shifted :
      (sides.val <<< leadingZeros sides).toNat =
        sides.toNat * shares sides := by
    rw [UInt32.toNat_shiftLeft, Nat.mod_eq_of_lt few, Nat.shiftLeft_eq,
      ← shares_eq]
    exact Nat.mod_eq_of_lt fits
  rw [zone, UInt32.toNat_sub_of_le, shifted]
  · rfl
  · rw [UInt32.le_iff_toNat_le, shifted]
    exact positive

theorem toNat_product :
    (product sides word).toNat = word.toNat * sides.toNat := by
  have bound : word.toNat * sides.toNat < UInt32.size * UInt32.size :=
    Nat.mul_lt_mul_of_lt_of_lt word.toNat_lt_size sides.toNat_lt
  rw [product, UInt64.toNat_mul, UInt32.toNat_toUInt64,
    UInt32.toNat_toUInt64]
  exact Nat.mod_eq_of_lt bound

theorem accepts_iff_lowerHalf_le_zone :
    Accepts sides word ↔ lowerHalf (product sides word) ≤ zone sides := by
  have positive : 0 < sides.toNat * shares sides :=
    Nat.mul_pos sides.toNat_pos (shares_pos sides)
  rw [UInt32.le_iff_toNat_le, toNat_zone, lowerHalf,
    UInt64.toNat_toUInt32, toNat_product,
    Nat.le_sub_one_iff_lt positive]
  rfl

theorem face_eq_upperHalf :
    face sides word = upperHalf (product sides word) + 1 := by
  have quotient :
      (upperHalf (product sides word)).toNat =
        word.toNat * sides.toNat / UInt32.size := by
    have small :
        word.toNat * sides.toNat / UInt32.size < UInt32.size :=
      Nat.lt_trans (quotient_lt sides word) sides.toNat_lt
    rw [upperHalf, UInt64.toNat_toUInt32, UInt64.toNat_shiftRight,
      toNat_product, Nat.shiftRight_eq_div_pow]
    exact Nat.mod_eq_of_lt small
  rw [face, ← quotient, UInt32.ofNat_add, UInt32.ofNat_toNat]
  rfl

/-! ## Words for one face -/

variable {sides word}

/-- The words that give a face have their products in one window. -/
theorem accepts_and_face_eq_iff
    {shown : UInt32} (positive : 0 < shown) :
    Accepts sides word ∧ face sides word = shown ↔
      (shown.toNat - 1) * UInt32.size ≤ word.toNat * sides.toNat ∧
        word.toNat * sides.toNat <
          (shown.toNat - 1) * UInt32.size +
            sides.toNat * shares sides := by
  have fits := mul_shares_lt sides
  have shownPositive : 0 < shown.toNat :=
    UInt32.lt_iff_toNat_lt.mp positive
  rw [Accepts, ← UInt32.toNat_inj, toNat_face]
  unfold UInt32.size at fits ⊢
  omega

/-- The window of the last face ends before the product of `2 ^ 32`, so every
number whose product lies in a window is a word. -/
theorem lt_size_of_mul_lt
    {shown : UInt32} (positive : 0 < shown) (le : shown ≤ sides.val)
    {number : Nat}
    (below :
      number * sides.toNat <
        (shown.toNat - 1) * UInt32.size + sides.toNat * shares sides) :
    number < UInt32.size := by
  have fits := mul_shares_lt sides
  have shownPositive : 0 < shown.toNat :=
    UInt32.lt_iff_toNat_lt.mp positive
  have shownLe : shown.toNat ≤ sides.toNat :=
    UInt32.le_iff_toNat_le.mp le
  have windows :
      (shown.toNat - 1) * UInt32.size + UInt32.size ≤
        sides.toNat * UInt32.size := by
    rw [← Nat.succ_mul]
    apply Nat.mul_le_mul_right
    omega
  by_contra large
  have products :=
    Nat.mul_le_mul_right sides.toNat (Nat.le_of_not_lt large)
  rw [Nat.mul_comm UInt32.size] at products
  omega

theorem ncard_words_of_face
    {shown : UInt32} (positive : 0 < shown) (le : shown ≤ sides.val) :
    {word | Accepts sides word ∧ face sides word = shown}.ncard =
      shares sides := by
  obtain ⟨first, window⟩ :=
    exists_first_multiple ((shown.toNat - 1) * UInt32.size) (shares sides)
      sides.toNat_pos
  have numbers :
      UInt32.toNat '' {word | Accepts sides word ∧ face sides word = shown} =
        Set.Ico first (first + shares sides) := by
    ext number
    rw [← window, Set.mem_image]
    constructor
    · rintro ⟨word, gives, rfl⟩
      exact (accepts_and_face_eq_iff positive).mp gives
    · intro inside
      have same : (UInt32.ofNat number).toNat = number :=
        UInt32.toNat_ofNat_of_lt' (lt_size_of_mul_lt positive le inside.2)
      refine ⟨UInt32.ofNat number, ?_, same⟩
      apply (accepts_and_face_eq_iff positive).mpr
      rwa [same]
  have injective : Function.Injective UInt32.toNat :=
    fun _ _ same => UInt32.toNat_inj.mp same
  rw [← Set.ncard_image_of_injective _ injective, numbers,
    ← Finset.coe_Ico, Set.ncard_coe_finset, Nat.card_Ico,
    Nat.add_sub_cancel_left]

/-! ## The first accepted word -/

section

variable {γ : Type} [Generator γ]

/-- The source behind so many words. -/
def after (source : γ) : Nat → γ
  | 0 => source
  | passed + 1 => after (next source).2 passed

/-- What is drawn is the face of the first word that is accepted, and the
source behind that word. -/
def DrawsFirst (sides : Positive) (source : γ) (drawn : UInt32 × γ) :
    Prop :=
  ∃ passed,
    IsLeast {passed | Accepts sides (wordAt source passed)} passed ∧
      drawn =
        (face sides (wordAt source passed), after source (passed + 1))

variable {source : γ} {drawn : UInt32 × γ}

theorem isLeast_zero_iff :
    IsLeast {passed | Accepts sides (wordAt source passed)} 0 ↔
      Accepts sides (next source).1 :=
  ⟨fun least => least.1, fun accepted => ⟨accepted, fun _ _ => Nat.zero_le _⟩⟩

theorem isLeast_succ_iff {passed : Nat} :
    IsLeast {passed | Accepts sides (wordAt source passed)} (passed + 1) ↔
      ¬ Accepts sides (next source).1 ∧
        IsLeast {passed | Accepts sides (wordAt (next source).2 passed)}
          passed := by
  constructor
  · intro least
    obtain ⟨accepted, lower⟩ := least
    refine ⟨?_, accepted, ?_⟩
    · intro first
      exact absurd (lower first) (Nat.not_succ_le_zero passed)
    · intro other otherAccepted
      exact Nat.le_of_succ_le_succ (lower (a := other + 1) otherAccepted)
  · intro least
    obtain ⟨rejected, accepted, lower⟩ := least
    refine ⟨accepted, ?_⟩
    intro other otherAccepted
    cases other with
    | zero => exact absurd otherAccepted rejected
    | succ other => exact Nat.succ_le_succ (lower otherAccepted)

theorem face?_eq_some_iff {attempts : Nat} :
    face? sides attempts source = some drawn ↔
      ∃ passed, passed < attempts ∧
        IsLeast {passed | Accepts sides (wordAt source passed)} passed ∧
          drawn =
            (face sides (wordAt source passed),
              after source (passed + 1)) := by
  induction attempts generalizing source with
  | zero => simp [face?]
  | succ attempts inductionHypothesis =>
      rw [face?]
      by_cases accepted : Accepts sides (next source).1
      · rw [if_pos accepted, Option.some.injEq]
        constructor
        · rintro rfl
          exact
            ⟨0, Nat.succ_pos attempts, isLeast_zero_iff.mpr accepted, rfl⟩
        · rintro ⟨passed, _, least, same⟩
          cases passed with
          | zero => exact same.symm
          | succ passed =>
              exact absurd accepted (isLeast_succ_iff.mp least).1
      · rw [if_neg accepted, inductionHypothesis]
        constructor
        · rintro ⟨passed, soon, least, same⟩
          exact
            ⟨passed + 1, Nat.succ_lt_succ soon,
              isLeast_succ_iff.mpr ⟨accepted, least⟩, same⟩
        · rintro ⟨passed, soon, least, same⟩
          cases passed with
          | zero => exact absurd (isLeast_zero_iff.mp least) accepted
          | succ passed =>
              exact
                ⟨passed, Nat.lt_of_succ_lt_succ soon,
                  (isLeast_succ_iff.mp least).2, same⟩

/-- With attempts enough, the draw ends just where some word is accepted. -/
theorem exists_face?_eq_some_iff :
    (∃ attempts, face? sides attempts source = some drawn) ↔
      DrawsFirst sides source drawn := by
  constructor
  · rintro ⟨attempts, ends⟩
    obtain ⟨passed, _, first⟩ := face?_eq_some_iff.mp ends
    exact ⟨passed, first⟩
  · rintro ⟨passed, first⟩
    exact
      ⟨passed + 1,
        face?_eq_some_iff.mpr ⟨passed, Nat.lt_succ_self passed, first⟩⟩

end

theorem drawsFirst_roll
    {γ : Type} [RecurrentGenerator γ] (sides : Positive) (source : γ) :
    DrawsFirst sides source (Roller.roll source sides) :=
  exists_face?_eq_some_iff.mp
    ⟨RecurrentGenerator.horizon source, (Option.some_get _).symm⟩

/-- Which words are accepted and which faces they give can be computed with
words of 32 and 64 bits. Accepted words give faces of the die only, and every
face comes from equally many of them. Whatever the source of words, a draw that
ends yields the face of the first accepted word. -/
theorem fair_draws (sides : Positive) :
    (∀ word,
      (Accepts sides word ↔
          lowerHalf (product sides word) ≤ zone sides) ∧
        face sides word = upperHalf (product sides word) + 1) ∧
    (∀ word, Accepts sides word →
      0 < face sides word ∧ face sides word ≤ sides.val) ∧
    (∀ shown, 0 < shown → shown ≤ sides.val →
      {word | Accepts sides word ∧ face sides word = shown}.ncard =
        2 ^ (leadingZeros sides).toNat) ∧
    (∀ {γ : Type} [Generator γ] (source : γ) (drawn : UInt32 × γ),
      ((∃ attempts, face? sides attempts source = some drawn) ↔
          DrawsFirst sides source drawn) ∧
        (DrawsFirst sides source drawn →
          0 < drawn.1 ∧ drawn.1 ≤ sides.val)) ∧
    ∀ {γ : Type} [RecurrentGenerator γ] (source : γ),
      DrawsFirst sides source (Roller.roll source sides) := by
  refine ⟨?_, ?_, ?_, ?_, fun source => drawsFirst_roll sides source⟩
  · intro word
    exact
      ⟨accepts_iff_lowerHalf_le_zone sides word,
        face_eq_upperHalf sides word⟩
  · intro word _
    exact face_inRange sides word
  · intro shown positive le
    rw [ncard_words_of_face positive le, shares_eq]
  · intro γ _ source drawn
    refine ⟨exists_face?_eq_some_iff, ?_⟩
    rintro ⟨passed, _, rfl⟩
    exact face_inRange sides (wordAt source passed)

/-- A die with three sides passes over the word `0x40000000`. -/
theorem second_word_for_three_sides :
    Accepts ⟨3, by decide⟩ 0x80000000 ∧
      (0 < face ⟨3, by decide⟩ 0x80000000 ∧
        face ⟨3, by decide⟩ 0x80000000 ≤ 3) ∧
      ((0 : UInt32) < 2 ∧ (2 : UInt32) ≤ 3) ∧
      {word | Accepts ⟨3, by decide⟩ word ∧
          face ⟨3, by decide⟩ word = 2}.ncard = 2 ^ 30 ∧
      face? ⟨3, by decide⟩ 2
          (⟨[0x40000000, 0x80000000], 0, 0⟩ : WordTape) =
        some (2, ⟨[], 0, 2⟩) ∧
      DrawsFirst ⟨3, by decide⟩
        (⟨[0x40000000, 0x80000000], 0, 0⟩ : WordTape) (2, ⟨[], 0, 2⟩) := by
  obtain ⟨_, faces, words, draws, _⟩ := fair_draws ⟨3, by decide⟩
  have accepted : Accepts ⟨3, by decide⟩ 0x80000000 := by decide
  have zeros : (leadingZeros ⟨3, by decide⟩).toNat = 30 := by decide
  have equallyMany := words 2 (by decide) (by decide)
  rw [zeros] at equallyMany
  have drawn :
      face? ⟨3, by decide⟩ 2
          (⟨[0x40000000, 0x80000000], 0, 0⟩ : WordTape) =
        some (2, ⟨[], 0, 2⟩) := by
    decide
  exact
    ⟨accepted, faces _ accepted, by decide, equallyMany, drawn,
      (draws _ _).1.mp ⟨2, drawn⟩⟩

end Generator

end DiceNotation
