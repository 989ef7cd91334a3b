import DiceNotation.Text.Basic

/-!
# Lines of input

Input is a list of bytes. A line ends at a line feed, which does not belong
to it, nor does one carriage return directly before that line feed. What
follows the last line feed is a line too, and keeps its carriage return.
Reading stops at the first line that is not UTF-8.
-/

namespace DiceNotation.Console

/-- The bytes of a line without its line feed, and whether it had one. -/
structure RawLine where
  bytes : List UInt8
  ended : Bool
deriving DecidableEq, Repr

def lineFeed : UInt8 := 0x0A

def carriageReturn : UInt8 := 0x0D

namespace RawLine

/-- Puts a byte before lines that follow it. -/
def addByte (byte : UInt8) (lines : List RawLine) : List RawLine :=
  if byte = lineFeed then
    ⟨[], true⟩ :: lines
  else
    match lines with
    | [] => [⟨[byte], false⟩]
    | next :: others => ⟨byte :: next.bytes, next.ended⟩ :: others

/-- The lines that the input consists of. -/
def all (input : List UInt8) : List RawLine :=
  input.foldr addByte []

/-- The bytes of the line without its line ending. -/
def content (line : RawLine) : List UInt8 :=
  if line.ended ∧ line.bytes.getLast? = some carriageReturn then
    line.bytes.dropLast
  else
    line.bytes

/-- The characters of the line, if it is UTF-8. -/
def text? (line : RawLine) : Option Text :=
  (String.fromUTF8? line.content.toByteArray).map String.toList

end RawLine

/-- The elements before the first absent one. -/
def presentFront {α : Type} : List (Option α) → List α
  | some head :: rest => head :: presentFront rest
  | _ => []

/-- The lines of the input up to the first one that is not UTF-8. -/
def readLines (input : List UInt8) : List Text :=
  presentFront ((RawLine.all input).map RawLine.text?)

end DiceNotation.Console
