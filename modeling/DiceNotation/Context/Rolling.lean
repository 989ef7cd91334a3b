import DiceNotation.Context.Basic

/-!
# Rolling an expression

An expression is checked, then all of its dice are counted, then they are
rolled one by one. Every rejected face counts as one more die before the next
is drawn. `roll` keeps the history of every die and `evaluate` only the
total. A die may reject any number of faces, so both take the number of
attempts that each die is given.
-/

namespace DiceNotation.RollM

variable {σ : Type} [Roller σ]

/-- Fails unless some face is above the threshold. -/
def checkThreshold (expression : Expression) : RollM σ Unit :=
  if expression.Keepable then
    pure ()
  else
    throw (.invalidThreshold expression.brutal expression.sides.val)

/-- Draws until a face is above `brutal`, and returns it with the rejected
faces gathered by `reject`. -/
def keepFace {β : Type} (sides : Positive) (brutal : UInt32)
    (reject : β → UInt32 → β) : Nat → β → RollM σ (β × UInt32)
  | 0, _ => unfinished
  | attempts + 1, gathered => do
      let face ← draw sides
      if face ≤ brutal then
        charge 1
        keepFace sides brutal reject attempts (reject gathered face)
      else
        return (gathered, face)

/-- Rolls a number of dice and adds the kept faces to a sum. -/
def addDice (attempts : Nat) (sides : Positive) (brutal : UInt32) :
    Nat → Nat → RollM σ Nat
  | 0, sum => return sum
  | count + 1, sum => do
      let kept ← keepFace sides brutal (fun _ _ => ()) attempts ()
      addDice attempts sides brutal count (sum + kept.2.toNat)

/-- Rolls a number of dice and puts them behind those rolled before, which
are given last first. -/
def collectDice (attempts : Nat) (sides : Positive) (brutal : UInt32) :
    Nat → List Die → RollM σ (List Die)
  | 0, dice => return dice.reverse
  | count + 1, dice => do
      let (rejected, kept) ←
        keepFace sides brutal (fun faces face => face :: faces) attempts []
      collectDice attempts sides brutal count
        (⟨sides, rejected.reverse, kept⟩ :: dice)

/-- The total of an expression. -/
def evaluate (attempts : Nat) (expression : Expression) : RollM σ Nat := do
  checkThreshold expression
  charge expression.count.toNat
  addDice attempts expression.sides expression.brutal
    expression.count.toNat expression.addend.toNat

/-- The dice of an expression with all of their faces. -/
def roll (attempts : Nat) (expression : Expression) : RollM σ Roll := do
  checkThreshold expression
  charge expression.count.toNat
  let dice ←
    collectDice attempts expression.sides expression.brutal
      expression.count.toNat []
  return ⟨expression, dice⟩

end DiceNotation.RollM
