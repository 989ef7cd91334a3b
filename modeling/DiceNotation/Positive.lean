/-!
# Positive words

Positive 32-bit words: how many dice are rolled, and how many faces a die has.
-/

namespace DiceNotation

/-- A 32-bit word other than zero. -/
structure Positive where
  val : UInt32
  pos : 0 < val
deriving DecidableEq, Repr

namespace Positive

def one : Positive := ⟨1, by decide⟩

/-- The same word, unless it is zero. -/
def ofWord? (word : UInt32) : Option Positive :=
  if pos : 0 < word then some ⟨word, pos⟩ else none

def toNat (number : Positive) : Nat := number.val.toNat

theorem toNat_pos (number : Positive) : 0 < number.toNat :=
  UInt32.lt_iff_toNat_lt.mp number.pos

theorem toNat_lt (number : Positive) : number.toNat < UInt32.size :=
  number.val.toNat_lt_size

@[simp]
theorem ofWord?_val (number : Positive) :
    ofWord? number.val = some number := by
  simp [ofWord?, number.pos]

theorem ofWord?_eq_some_iff {word : UInt32} {number : Positive} :
    ofWord? word = some number ↔ number.val = word := by
  constructor
  · rw [ofWord?]
    split
    · intro present
      cases present
      rfl
    · simp
  · intro same
    subst same
    exact ofWord?_val number

/-- Zero is the one word that is not positive. -/
theorem ofWord?_eq_none_iff {word : UInt32} :
    ofWord? word = none ↔ word = 0 := by
  simp [ofWord?, UInt32.pos_iff_ne_zero]

end Positive

end DiceNotation
