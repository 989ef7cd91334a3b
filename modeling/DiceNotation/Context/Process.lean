import DiceNotation.Context.Rolling
import DiceNotation.Occurrence

/-!
# Rolling the notation in a text

Every use of notation is replaced by the total rolled for it, from left to
right; all else stays as it is. Text without notation comes back untouched.
The first expression that cannot be rolled decides the error.
-/

namespace DiceNotation

/-- What became of a text. -/
inductive Processed where
  /-- There was no notation in it. -/
  | untouched (text : Text)
  /-- Notation has been replaced by totals. -/
  | replaced (text : Text)
deriving DecidableEq, Repr

namespace Processed

def text : Processed → Text
  | untouched text => text
  | replaced text => text

end Processed

namespace RollM

variable {σ β : Type}

/-- Rolls what has been found, from left to right. Returns the text from byte
`cursor` on, with a total in the place of each occurrence, and what was
rolled. -/
def replaceFrom (roll : Expression → RollM σ β) (total : β → Nat)
    (source : Text) (cursor : Nat) :
    List Occurrence → RollM σ (Text × List β)
  | [] => return (source.dropBytes cursor, [])
  | found :: others => do
      let rolled ← roll found.expression
      let (rest, results) ←
        replaceFrom roll total source found.span.stop others
      let gap := source.slice ⟨cursor, found.span.start⟩
      return (gap ++ (Text.decimal (total rolled) ++ rest),
        rolled :: results)

/-- Replaces the notation in a text, given how an expression is rolled and
what the total of the result is, and returns all results. -/
def substitute (roll : Expression → RollM σ β) (total : β → Nat)
    (source : Text) : RollM σ (Processed × List β) :=
  match occurrences source with
  | [] => return (.untouched source, [])
  | first :: others => do
      let (text, results) ←
        replaceFrom roll total source 0 (first :: others)
      return (.replaced text, results)

variable [Roller σ]

/-- Replaces the notation in a text. -/
def process (attempts : Nat) (source : Text) : RollM σ Processed := do
  let (processed, _) ← substitute (evaluate attempts) id source
  return processed

/-- Replaces the notation in a text and returns the rolls behind the
totals. -/
def processDetailed (attempts : Nat) (source : Text) :
    RollM σ (Processed × List Roll) :=
  substitute (roll attempts) Roll.total source

end RollM

end DiceNotation
