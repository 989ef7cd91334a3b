import DiceNotation.Breakdown
import DiceNotation.Console.Input
import DiceNotation.Context.Process
import DiceNotation.Text.Blank

/-!
# Console sessions

Lines gather into a block until an empty line ends it. The notation in a
finished block is rolled in a context of its own, and the block is shown with
its totals, followed by a breakdown of every roll, or an error is reported.
A block that no empty line ends is never rolled.
-/

namespace DiceNotation.Console

/-- What a session writes to its output and to its error output. -/
structure Transcript where
  output : Text := []
  errors : Text := []
deriving DecidableEq, Repr

instance : Append Transcript where
  append first second :=
    ⟨first.output ++ second.output, first.errors ++ second.errors⟩

/-- Shown when a block may begin. -/
def prompt : Text := "> ".toList

/-- Shown when a block may go on. -/
def continuation : Text := "... ".toList

/-- A session between two lines: the lines of the open block, last first, and
the number of blocks before it. -/
structure Session where
  lines : List Text := []
  blocks : Nat := 0
deriving DecidableEq, Repr

/-- What a session is started with: the budget of every block and the roller
of each block, by number. -/
structure Setup (σ : Type) where
  budget : UInt64
  roller : Nat → σ

namespace Setup

variable {σ : Type}

/-- A new context for a block. -/
def context (setup : Setup σ) (block : Nat) : Context σ :=
  Context.limited setup.budget (setup.roller block)

/-- One attempt more than the budget can reject. -/
def attempts (setup : Setup σ) : Nat := setup.budget.toNat + 2

end Setup

/-- The lines of a block, given last first, each with a line feed, without
white space at the end. -/
def blockText (lines : List Text) : Text :=
  Text.trimEnd (lines.reverse.flatMap fun line => line ++ ['\n'])

/-- A breakdown on a line of its own, set in by two spaces. -/
def breakdownLine (roll : Roll) : Text :=
  "  ".toList ++ Style.markdown.roll roll ++ ['\n']

/-- What is written for a block that was rolled or was not. -/
def report :
    Except RollError (Processed × List Roll) → Transcript
  | .ok (processed, rolls) =>
      { output :=
          processed.text ++ ['\n'] ++ rolls.flatMap breakdownLine }
  | .error error =>
      { errors := "Error: ".toList ++ error.message ++ ['\n'] }

namespace Session

variable {σ : Type} [Roller σ]

/-- The answer to one line, and the session after it. -/
def accept (setup : Setup σ) (session : Session) :
    Text → Option (Transcript × Session)
  | [] => do
      let (result, _) ←
        (RollM.processDetailed setup.attempts
          (blockText session.lines)).runIn
            (setup.context session.blocks)
      return (report result ++ { output := prompt },
        { blocks := session.blocks + 1 })
  | line =>
      some ({ output := continuation },
        { session with lines := line :: session.lines })

/-- The answers to all lines together. -/
def acceptAll (setup : Setup σ) : Session → List Text → Option Transcript
  | _, [] => some { }
  | session, line :: lines => do
      let (answer, after) ← session.accept setup line
      let later ← acceptAll setup after lines
      return answer ++ later

end Session

/-- How a session ended. -/
structure Ending where
  transcript : Transcript
  exitCode : UInt32
deriving DecidableEq, Repr

/-- A whole session, from the first prompt to the end of the input. -/
def run {σ : Type} [Roller σ] (setup : Setup σ) (input : List UInt8) :
    Option Ending := do
  let transcript ← Session.acceptAll setup { } (readLines input)
  return ⟨{ output := prompt } ++ transcript, 0⟩

end DiceNotation.Console
