import DiceNotation.Text.Blank
import DiceNotation.Text.Numeral

/-!
# The dice budget of a session

The budget is a setting that the user may write down: a positive decimal
number, perhaps with a plus sign, perhaps with white space around it. Any
other setting, or none, stands for `defaultBudget`.
-/

namespace DiceNotation.Console

/-- How many dice a block may roll if nothing else is set. -/
def defaultBudget : UInt64 := 1000

/-- The number that a setting writes out, if it is positive and fits. -/
def writtenBudget? (setting : Text) : Option UInt64 :=
  let digits :=
    match Text.trim setting with
    | '+' :: digits => digits
    | digits => digits
  if digits ≠ [] ∧ digits.all Char.isDigit then
    (Text.word64? digits).filter fun budget => 0 < budget
  else
    none

/-- The budget for a setting, which may be missing. -/
def budget (setting : Option Text) : UInt64 :=
  (setting.bind writtenBudget?).getD defaultBudget

end DiceNotation.Console
