import DiceNotation.Text.Basic

/-!
# Decimal numerals

How a number is written, and what a run of digits is worth.
Writing gives the shortest run, reading takes any run, and reading undoes
writing (`value_decimal`). A word is read just if the value of its digits fits
(`word32?_eq`, `word64?_eq`).
-/

namespace DiceNotation.Text

/-- The decimal digits of `number`, without leading zeros. -/
def decimal (number : Nat) : Text :=
  Nat.toDigits 10 number

/-- The number that a run of digits stands for; leading zeros count for
nothing and the empty run for zero. -/
def value (digits : Text) : Nat :=
  Nat.ofDigitChars 10 digits 0

/-- Reading undoes writing. -/
@[simp]
theorem value_decimal (number : Nat) : value (decimal number) = number :=
  Nat.ofDigitChars_toDigits (by decide) (by decide)

theorem isDigit_of_mem_decimal
    {number : Nat} {digit : Char}
    (member : digit ∈ decimal number) :
    digit.isDigit = true :=
  Nat.isDigit_of_mem_toDigits (by decide) (by decide) member

theorem decimal_ne_nil (number : Nat) : decimal number ≠ [] := by
  rw [decimal, Nat.toDigits_eq_if (by decide)]
  split <;> simp

/-- The value of a run of digits if it is below `bound`. Reading ends at the
first digit that takes the value too far. -/
def valueBelow? (bound : Nat) (digits : Text) : Option Nat :=
  digits.foldlM
    (fun reached digit =>
      let next := 10 * reached + (digit.toNat - '0'.toNat)
      if next < bound then some next else none)
    0

/-- The 32-bit word that a run of digits stands for, if it fits. -/
def word32? (digits : Text) : Option UInt32 :=
  (valueBelow? UInt32.size digits).map UInt32.ofNat

/-- The 64-bit word that a run of digits stands for, if it fits. -/
def word64? (digits : Text) : Option UInt64 :=
  (valueBelow? UInt64.size digits).map UInt64.ofNat

theorem le_ofDigitChars (digits : Text) (reached : Nat) :
    reached ≤ Nat.ofDigitChars 10 digits reached := by
  induction digits generalizing reached with
  | nil => exact Nat.le_refl _
  | cons digit rest inductionHypothesis =>
      have later :=
        inductionHypothesis (10 * reached + (digit.toNat - '0'.toNat))
      rw [Nat.ofDigitChars_cons]
      omega

/-- Reading that ends early finds the same values below the bound as reading to
the end. -/
theorem valueBelow?_eq
    {bound : Nat} (positive : 0 < bound) (digits : Text) :
    valueBelow? bound digits =
      if value digits < bound then some (value digits) else none := by
  unfold valueBelow? value
  generalize start : (0 : Nat) = reached
  have below : reached < bound := start ▸ positive
  clear start
  induction digits generalizing reached with
  | nil => simp [below]
  | cons digit rest inductionHypothesis =>
      rw [List.foldlM_cons, Nat.ofDigitChars_cons]
      by_cases fits :
          10 * reached + (digit.toNat - '0'.toNat) < bound
      · simpa only [if_pos fits, Option.bind_eq_bind,
          Option.bind_some] using inductionHypothesis _ fits
      · have later :=
          le_ofDigitChars rest
            (10 * reached + (digit.toNat - '0'.toNat))
        rw [if_neg fits, if_neg (by omega)]
        rfl

section

variable (digits : Text)

/-- Words of any size are read alike: a run of digits is a word just if its
value is below the number of words. -/
theorem map_valueBelow?_eq
    {ω : Type} {bound : Nat} (positive : 0 < bound) (ofNat : Nat → ω) :
    (valueBelow? bound digits).map ofNat =
      if value digits < bound then some (ofNat (value digits)) else none := by
  rw [valueBelow?_eq positive]
  split
  · rfl
  · rfl

theorem word32?_eq :
    word32? digits =
      if value digits < UInt32.size then
        some (UInt32.ofNat (value digits))
      else
        none :=
  map_valueBelow?_eq digits (by decide) UInt32.ofNat

theorem word64?_eq :
    word64? digits =
      if value digits < UInt64.size then
        some (UInt64.ofNat (value digits))
      else
        none :=
  map_valueBelow?_eq digits (by decide) UInt64.ofNat

end

end DiceNotation.Text
