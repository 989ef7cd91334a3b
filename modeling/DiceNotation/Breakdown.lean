import DiceNotation.Roll

/-!
# Breakdowns

A breakdown is the text of a roll with every face of every die, as in
`1d10+5b2 (1 -> 2 -> 7) = 12`. A style says how a die, all dice and a total
are written; the plain style writes bare numbers, the Markdown style adds
emphasis.
-/

namespace DiceNotation

/-- How the parts of a roll are written. -/
structure Style where
  die : Die → Text :=
    fun die =>
      " -> ".toList.intercalate
        (die.faces.map fun face => Text.decimal face.toNat)
  dice : List Die → Text :=
    fun dice => ", ".toList.intercalate (dice.map die)
  total : Nat → Text := Text.decimal

namespace Style

/-- The notation, the dice in parentheses, and the total. -/
def roll (style : Style) (roll : Roll) : Text :=
  roll.expression.render ++ " (".toList ++ style.dice roll.dice ++
    ") = ".toList ++ style.total roll.total

/-- Faces are bare numbers. -/
def plain : Style := { }

/-- A face number, bold if it is one or the highest of its die. -/
def emphasized (sides : Positive) (face : UInt32) : Text :=
  if face = 1 ∨ face = sides.val then
    "**".toList ++ Text.decimal face.toNat ++ "**".toList
  else
    Text.decimal face.toNat

/-- Rejected faces are struck through, ones and highest faces are bold, and
the total is set as code. -/
def markdown : Style where
  die die :=
    " -> ".toList.intercalate
      ((die.rejected.map fun face =>
          "~~".toList ++ emphasized die.sides face ++ "~~".toList) ++
        [emphasized die.sides die.kept])
  total number := "`".toList ++ Text.decimal number ++ "`".toList

end Style

namespace Roll

/-- The plain breakdown. -/
def render (roll : Roll) : Text := Style.plain.roll roll

end Roll

end DiceNotation
