import DiceNotation.Context.Process

/-!
# Steps on a context

What can be asked of a context, as data: single steps, and runs of steps that
go on after an error.
-/

namespace DiceNotation

/-- A request to a context. -/
inductive Step where
  | evaluate (expression : Expression)
  | roll (expression : Expression)
  | process (source : Text)
  | processDetailed (source : Text)
  | reset
deriving DecidableEq, Repr

/-- What a successful step yields. -/
inductive Answer where
  | total (total : Nat)
  | rolled (roll : Roll)
  | text (processed : Processed)
  | detailed (processed : Processed) (rolls : List Roll)
  | done
deriving DecidableEq, Repr

/-- How a step ended. -/
abbrev Outcome := Except RollError Answer

namespace Step

variable {σ : Type} [Roller σ]

/-- The step as an action. -/
def perform (attempts : Nat) : Step → RollM σ Answer
  | evaluate expression =>
      return .total (← RollM.evaluate attempts expression)
  | roll expression => return .rolled (← RollM.roll attempts expression)
  | process source => return .text (← RollM.process attempts source)
  | processDetailed source => do
      let (processed, rolls) ← RollM.processDetailed attempts source
      return .detailed processed rolls
  | reset => do
      RollM.reset
      return .done

/-- Takes the steps one after the other, whether or not they fail, and
returns each outcome with the context after it. -/
def performAll (attempts : Nat) :
    List Step → Context σ → Option (List (Outcome × Context σ))
  | [], _ => some []
  | step :: steps, context => do
      let after ← (step.perform attempts).runIn context
      let later ← performAll attempts steps after.2
      return after :: later

end Step

end DiceNotation
