import DiceNotation.Expression
import DiceNotation.Token

/-!
# Notation in a text

Dice notation `[count] d sides [+ addend] [b brutal]` wherever it stands in a
text, found in one pass over the tokens from left to right. A digit run is
remembered until the next token shows whether it counts dice. Tokens that were
read on behalf of notation are not read again, whether or not its numbers turn
out to be usable.
-/

namespace DiceNotation

/-- Notation as written: its digit runs and the bytes that it covers. -/
structure Candidate where
  count : Option Text
  sides : Text
  addend : Option Text
  brutal : Option Text
  span : Span
deriving DecidableEq, Repr

namespace Candidate

/-- The number of dice; a missing count is one. -/
def count? (candidate : Candidate) : Option Positive :=
  match candidate.count with
  | some digits => Text.word32? digits >>= Positive.ofWord?
  | none => some Positive.one

/-- The expression that the notation stands for, if its numbers are usable. A
missing addend or threshold is zero. -/
def expression? (candidate : Candidate) : Option Expression := do
  let count ← candidate.count?
  let sides ← Text.word32? candidate.sides >>= Positive.ofWord?
  let addend ← Text.word32? (candidate.addend.getD [])
  let brutal ← Text.word32? (candidate.brutal.getD [])
  return ⟨count, sides, addend, brutal⟩

end Candidate

/-- Usable notation and the bytes that it covers. -/
structure Occurrence where
  expression : Expression
  span : Span
deriving DecidableEq, Repr

namespace Token

/-- Takes the first token if it has this kind. -/
def take (kind : Kind) : List Token → Option Token × List Token
  | [] => (none, [])
  | head :: rest =>
      if head.kind = kind then
        (some head, rest)
      else
        (none, head :: rest)

/-- Takes a mark, and then a digit run if there was a mark. The mark is taken
even if no digits follow it. -/
def takeMarked (mark : Kind) (tokens : List Token) :
    Option Token × Option Token × List Token :=
  match take mark tokens with
  | (none, rest) => (none, none, rest)
  | (some sign, rest) => (some sign, take .digits rest)

theorem length_take_le (kind : Kind) (tokens : List Token) :
    (take kind tokens).2.length ≤ tokens.length := by
  unfold take
  split
  · exact Nat.le_refl _
  · split
    · exact Nat.le_succ _
    · exact Nat.le_refl _

theorem length_takeMarked_le (mark : Kind) (tokens : List Token) :
    (takeMarked mark tokens).2.2.length ≤ tokens.length := by
  have first := length_take_le mark tokens
  rw [takeMarked]
  split
  · next rest taken =>
      rw [taken] at first
      exact first
  · next sign rest taken =>
      rw [taken] at first
      exact Nat.le_trans (length_take_le .digits rest) first

end Token

namespace Occurrence

def ofCandidate? (candidate : Candidate) : Option Occurrence :=
  candidate.expression?.map fun expression =>
    ⟨expression, candidate.span⟩

/-- The rest of the suffixes behind the digits of the sides: the digits of the
addend and of the threshold, and the tokens behind all that was read. A plus
sign without digits ends the notation. -/
def takeSuffixes (tokens : List Token) :
    Option Token × Option Token × List Token :=
  match Token.takeMarked .plus tokens with
  | (some _, none, rest) => (none, none, rest)
  | (_, addend, rest) =>
      (addend, (Token.takeMarked .brutal rest).2)

/-- Reads notation that begins at byte `start` on from its mark `d`, after the
digits of the count if there are any. Returns the notation, if it is usable,
and the tokens behind all that was read. -/
def complete (start : Nat) (count : Option Token) (tokens : List Token) :
    Option Occurrence × List Token :=
  match Token.take .digits tokens with
  | (none, rest) => (none, rest)
  | (some sides, afterSides) =>
      let (addend, brutal, rest) := takeSuffixes afterSides
      let last := brutal.getD (addend.getD sides)
      let candidate : Candidate :=
        ⟨count.map Token.text, sides.text, addend.map Token.text,
          brutal.map Token.text, ⟨start, last.stop⟩⟩
      (ofCandidate? candidate, rest)

theorem length_takeSuffixes_le (tokens : List Token) :
    (takeSuffixes tokens).2.2.length ≤ tokens.length := by
  have addendStep := Token.length_takeMarked_le .plus tokens
  rw [takeSuffixes]
  split
  · next sign rest taken =>
      rw [taken] at addendStep
      exact addendStep
  · next sign addend rest _ taken =>
      rw [taken] at addendStep
      exact
        Nat.le_trans (Token.length_takeMarked_le .brutal rest) addendStep

/-- No tokens are added, so the scan ends. -/
theorem length_complete_le
    (start : Nat) (count : Option Token) (tokens : List Token) :
    (complete start count tokens).2.length ≤ tokens.length := by
  have sidesStep := Token.length_take_le .digits tokens
  rw [complete]
  split
  · next rest taken =>
      rw [taken] at sidesStep
      exact sidesStep
  · next sides afterSides taken =>
      rw [taken] at sidesStep
      exact Nat.le_trans (length_takeSuffixes_le afterSides) sidesStep

/-- The usable notation among the tokens, from left to right, when `pending`
is the digit run just before them, if there is one. -/
def scan (pending : Option Token) : List Token → List Occurrence
  | [] => []
  | head :: rest =>
      match head.kind with
      | .digits => scan (some head) rest
      | .die =>
          let start := (pending.getD head).start
          let completed := complete start pending rest
          completed.1.toList ++ scan none completed.2
      | _ => scan none rest
termination_by tokens => tokens.length
decreasing_by
  · exact Nat.lt_succ_self _
  · exact Nat.lt_succ_of_le (length_complete_le _ _ _)
  · exact Nat.lt_succ_self _

end Occurrence

/-- Every use of dice notation in a text, leftmost first. -/
def occurrences (text : Text) : List Occurrence :=
  Occurrence.scan none (Token.lex text)

/-- The expressions in a text, leftmost first. -/
def expressions (text : Text) : List Expression :=
  (occurrences text).map Occurrence.expression

end DiceNotation
