import DiceNotation.Positive
import DiceNotation.Text.Numeral

/-!
# Dice expressions

A dice expression is written `XdY+ZbW`: `X` dice with `Y` faces each, a flat
addend `Z`, and a threshold `W`; faces up to the threshold are rolled again.
Totals are natural numbers, and the least and the greatest of them are below
`2 ^ 64` (`minTotal_lt`, `maxTotal_lt`).
-/

namespace DiceNotation

/-- What can be wrong with a request for one expression. -/
inductive NotationError where
  /-- The input does not begin with usable notation. -/
  | noDice
  /-- Notation is followed by more input, from byte `position` on. -/
  | trailingInput (position : Nat)
  /-- The dice count or the number of faces is zero. -/
  | zeroDice
deriving DecidableEq, Repr

def NotationError.message : NotationError → Text
  | noDice => "no dice notation at the start of the input".toList
  | trailingInput position =>
      "unexpected input after dice notation at position ".toList ++
        Text.decimal position
  | zeroDice => "dice count and die type must be at least 1".toList

/-- A roll of `count` dice with `sides` faces each and a flat `addend`, in
which faces not greater than `brutal` are rolled again. -/
structure Expression where
  count : Positive
  sides : Positive
  addend : UInt32
  brutal : UInt32
deriving DecidableEq, Repr

namespace Expression

/-- The expression with these four numbers; the first two must not be
zero. -/
def ofNumbers (count sides addend brutal : UInt32) :
    Except NotationError Expression :=
  match Positive.ofWord? count, Positive.ofWord? sides with
  | some count, some sides => .ok ⟨count, sides, addend, brutal⟩
  | _, _ => .error .zeroDice

/-- Some face from 1 to `sides` is above the threshold. -/
def Keepable (expression : Expression) : Prop :=
  expression.brutal < expression.sides.val

instance (expression : Expression) : Decidable expression.Keepable :=
  inferInstanceAs (Decidable (expression.brutal < expression.sides.val))

/-- The total when every kept face is the least above the threshold. -/
def minTotal (expression : Expression) : Nat :=
  expression.count.toNat * (expression.brutal.toNat + 1) +
    expression.addend.toNat

/-- The total when every kept face is the highest. -/
def maxTotal (expression : Expression) : Nat :=
  expression.count.toNat * expression.sides.toNat +
    expression.addend.toNat

/-- Notation for the expression; an addend or threshold of zero is left
out. -/
def render (expression : Expression) : Text :=
  Text.decimal expression.count.toNat ++
    'd' :: Text.decimal expression.sides.toNat ++
    (if expression.addend = 0 then []
      else '+' :: Text.decimal expression.addend.toNat) ++
    (if expression.brutal = 0 then []
      else 'b' :: Text.decimal expression.brutal.toNat)

section

variable (expression : Expression)

/-- Dice that all show the same face come to less than `2 ^ 64` with the
addend, even if that face is `2 ^ 32`. -/
theorem count_mul_add_addend_lt {face : Nat} (le : face ≤ UInt32.size) :
    expression.count.toNat * face + expression.addend.toNat <
      UInt64.size := by
  have count := expression.count.toNat_lt
  have addend := expression.addend.toNat_lt_size
  have product :
      expression.count.toNat * face ≤ (UInt32.size - 1) * UInt32.size :=
    Nat.mul_le_mul (by omega) le
  unfold UInt64.size
  unfold UInt32.size at product addend
  omega

theorem minTotal_lt : expression.minTotal < UInt64.size :=
  expression.count_mul_add_addend_lt expression.brutal.toNat_lt_size

theorem maxTotal_lt : expression.maxTotal < UInt64.size :=
  expression.count_mul_add_addend_lt
    (Nat.le_of_lt expression.sides.toNat_lt)

end

end Expression

end DiceNotation
