import DiceNotation.Roller.Basic

/-!
# Faces from random words

A generator of 32-bit words rolls dice by multiplication: the word times the
number of faces, divided by `2 ^ 32`, selects the face. Words that would make
some faces likelier than others are passed over, so that each face comes from
the same number of words, `shares`.
-/

namespace DiceNotation

/-- A source of 32-bit words. -/
class Generator (γ : Type) where
  next : γ → UInt32 × γ

namespace Generator

variable {γ : Type} [Generator γ]

/-- The word that comes after `passed` others. -/
def wordAt (source : γ) : Nat → UInt32
  | 0 => (next source).1
  | passed + 1 => wordAt (next source).2 passed

/-- The number of words that give one and the same face: the largest power of
two for which no more than `2 ^ 32` words are needed. -/
def shares (sides : Positive) : Nat :=
  1 <<< (31 - sides.toNat.log2)

/-- The word gives a face. -/
def Accepts (sides : Positive) (word : UInt32) : Prop :=
  word.toNat * sides.toNat % UInt32.size <
    sides.toNat * shares sides

instance (sides : Positive) (word : UInt32) :
    Decidable (Accepts sides word) :=
  inferInstanceAs
    (Decidable
      (word.toNat * sides.toNat % UInt32.size <
        sides.toNat * shares sides))

/-- The face that an accepted word gives. -/
def face (sides : Positive) (word : UInt32) : UInt32 :=
  UInt32.ofNat (word.toNat * sides.toNat / UInt32.size + 1)

/-- The face of the first accepted word, if it is among the next `attempts`
words. -/
def face? (sides : Positive) : Nat → γ → Option (UInt32 × γ)
  | 0, _ => none
  | attempts + 1, source =>
      let drawn := next source
      if Accepts sides drawn.1 then
        some (face sides drawn.1, drawn.2)
      else
        face? sides attempts drawn.2

theorem shares_pos (sides : Positive) : 0 < shares sides := by
  rw [shares, Nat.one_shiftLeft]
  exact Nat.two_pow_pos _

/-- Every die accepts the word zero, so a generator that comes to it rolls any
die. -/
theorem accepts_zero (sides : Positive) : Accepts sides 0 := by
  have product : 0 < sides.toNat * shares sides :=
    Nat.mul_pos sides.toNat_pos (shares_pos sides)
  rw [Accepts, UInt32.toNat_zero, Nat.zero_mul, Nat.zero_mod]
  exact product

/-- An accepted word within the attempts gives a face. -/
theorem face?_isSome
    {sides : Positive} {source : γ} {passed attempts : Nat}
    (soon : passed < attempts)
    (accepted : Accepts sides (wordAt source passed)) :
    (face? sides attempts source).isSome := by
  induction attempts generalizing source passed with
  | zero => omega
  | succ attempts inductionHypothesis =>
      simp only [face?]
      split
      · rfl
      · next rejected =>
          cases passed with
          | zero => exact absurd accepted rejected
          | succ passed =>
              exact
                inductionHypothesis (Nat.lt_of_succ_lt_succ soon)
                  accepted

end Generator

/-- A generator that comes to the word zero, which every die accepts, within
`horizon` words from wherever it stands. -/
class RecurrentGenerator (γ : Type) extends Generator γ where
  horizon : γ → Nat
  reaches_zero (source : γ) :
    ∃ passed,
      passed < horizon source ∧ Generator.wordAt source passed = 0

instance {γ : Type} [RecurrentGenerator γ] : Roller γ where
  roll source sides :=
    (Generator.face? sides (RecurrentGenerator.horizon source)
      source).get <| by
        obtain ⟨passed, soon, zero⟩ :=
          RecurrentGenerator.reaches_zero source
        exact
          Generator.face?_isSome soon
            (zero ▸ Generator.accepts_zero sides)

end DiceNotation
