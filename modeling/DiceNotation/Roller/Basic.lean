import DiceNotation.Positive

/-!
# Rollers

A roller is where the faces of dice come from, be it random or known
beforehand.
-/

namespace DiceNotation

/-- A source of die faces: rolling a die with the given number of faces
yields a face and the source from then on. -/
class Roller (σ : Type) where
  roll : σ → Positive → UInt32 × σ

end DiceNotation
