import DiceNotation.Expression

/-!
# Rolled dice

A die keeps its whole history: the faces that were rolled again
and the face that was kept. The total of a roll counts kept faces only.
-/

namespace DiceNotation

/-- One rolled die: the faces that were rejected, earliest first, and the
face that was kept. -/
structure Die where
  sides : Positive
  rejected : List UInt32
  kept : UInt32
deriving DecidableEq, Repr

namespace Die

/-- Every face that the die showed, in order. -/
def faces (die : Die) : List UInt32 :=
  die.rejected ++ [die.kept]

/-- How often the die was rolled again. -/
def rerolls (die : Die) : Nat := die.rejected.length

/-- The die that showed these faces, if there are any. -/
def ofFaces? (sides : Positive) (faces : List UInt32) : Option Die :=
  faces.getLast?.map fun kept => ⟨sides, faces.dropLast, kept⟩

/-- A die can be told from what it showed. -/
@[simp]
theorem ofFaces?_faces (die : Die) :
    ofFaces? die.sides die.faces = some die := by
  simp [ofFaces?, faces]

end Die

/-- Faces added up. -/
def sumFaces : List UInt32 → Nat
  | [] => 0
  | face :: faces => face.toNat + sumFaces faces

@[simp]
theorem sumFaces_append (first second : List UInt32) :
    sumFaces (first ++ second) = sumFaces first + sumFaces second := by
  induction first with
  | nil => simp [sumFaces]
  | cons face faces inductionHypothesis =>
      simp [sumFaces, inductionHypothesis, Nat.add_assoc]

@[simp]
theorem sumFaces_reverse (faces : List UInt32) :
    sumFaces faces.reverse = sumFaces faces := by
  induction faces with
  | nil => rfl
  | cons face faces inductionHypothesis =>
      simp [sumFaces, inductionHypothesis, Nat.add_comm]

/-- The dice rolled for an expression. -/
structure Roll where
  expression : Expression
  dice : List Die
deriving DecidableEq, Repr

namespace Roll

/-- The kept faces and the addend together. -/
def total (roll : Roll) : Nat :=
  sumFaces (roll.dice.map Die.kept) + roll.expression.addend.toNat

def rerolls (roll : Roll) : Nat :=
  (roll.dice.flatMap Die.rejected).length

end Roll

end DiceNotation
