import DiceNotation.Console.Budget
import DiceNotation.Console.Session
import DiceNotation.Roller.Scrambler

/-!
# The command line

A console session on the standard streams, with freshly seeded dice for every
block. The environment variable `DICE_MAX_DICE` holds the budget.
-/

namespace DiceNotation.Console

/-- A generator seeded by the system. -/
def seededGenerator : IO Scrambler := do
  let bytes ← IO.getRandomBytes 8
  return ⟨bytes.foldl (fun seed byte => seed * 256 + byte.toUInt64) 0⟩

/-- The next line of a stream, given the bytes of it that have been read,
last first; nothing at the end of the stream. -/
partial def readLine (stream : IO.FS.Stream) (bytes : List UInt8) :
    IO (Option RawLine) := do
  match (← stream.read 1).toList with
  | [] =>
      if bytes.isEmpty then
        return none
      else
        return some ⟨bytes.reverse, false⟩
  | byte :: _ =>
      if byte = lineFeed then
        return some ⟨bytes.reverse, true⟩
      else
        readLine stream (byte :: bytes)

def Transcript.write (transcript : Transcript) : IO Unit := do
  let output ← IO.getStdout
  let errors ← IO.getStderr
  output.putStr (String.ofList transcript.output)
  output.flush
  errors.putStr (String.ofList transcript.errors)
  errors.flush

/-- Answers lines until the input ends or is not text, and returns the exit
code. -/
partial def converse (budget : UInt64) (session : Session) : IO UInt32 := do
  let some line ← readLine (← IO.getStdin) []
    | return 0
  let some text := line.text?
    | return 0
  let generator ← seededGenerator
  let setup : Setup Scrambler := ⟨budget, fun _ => generator⟩
  let some (answer, after) := session.accept setup text
    | return 1
  answer.write
  converse budget after

/-- A session with the budget that the environment sets. -/
def start : IO UInt32 := do
  let setting ← IO.getEnv "DICE_MAX_DICE"
  Transcript.write { output := prompt }
  converse (budget (setting.map String.toList)) { }

end DiceNotation.Console

def main : IO UInt32 := DiceNotation.Console.start
