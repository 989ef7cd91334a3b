import DiceNotation.Occurrence

/-!
# Reading one expression

One expression read from the start of a text, either leaving the rest alone
(`Expression.leading?`) or insisting that nothing follows
(`Expression.read`).
-/

namespace DiceNotation

/-- The first usable notation of a text, if it stands at the very start. -/
def leadingOccurrence? (text : Text) : Option Occurrence :=
  (occurrences text).head?.filter fun first => first.span.start = 0

namespace Expression

/-- The expression at the start of a text; what follows does not matter. -/
def leading? (text : Text) : Option Expression :=
  (leadingOccurrence? text).map Occurrence.expression

/-- The expression that a text consists of. -/
def read (text : Text) : Except NotationError Expression :=
  match leadingOccurrence? text with
  | none => .error .noDice
  | some first =>
      if first.span.stop = text.byteSize then
        .ok first.expression
      else
        .error (.trailingInput first.span.stop)

end Expression

end DiceNotation
