import DiceNotation.Proofs.Blocks

/-!
# Line endings

Nothing is lost when input is cut into lines (`RawLine.flatMap_toBytes_all`). A
carriage return before a line feed is part of the line ending. So where there
are no other carriage returns, the same lines are read whether or not every
line feed has one before it (`Console.readLines_withReturns`), and a session
shows the same (`Console.run_withReturns`).
-/

namespace DiceNotation.Console

/-- The input with a carriage return before every line feed. -/
def withReturns (input : List UInt8) : List UInt8 :=
  input.flatMap fun byte =>
    if byte = lineFeed then [carriageReturn, lineFeed] else [byte]

namespace RawLine

/-! ## Lines written out -/

/-- The line as it stands in the input. -/
def toBytes (line : RawLine) : List UInt8 :=
  line.bytes ++ if line.ended then [lineFeed] else []

theorem flatMap_toBytes_all (input : List UInt8) :
    (all input).flatMap toBytes = input := by
  induction input with
  | nil => rfl
  | cons byte rest inductionHypothesis =>
      rw [all_cons]
      by_cases ending : byte = lineFeed
      · rw [ending, addByte_lineFeed, List.flatMap_cons,
          inductionHypothesis]
        rfl
      · rw [addByte_of_ne ending]
        cases lines : all rest with
        | nil =>
            rw [lines, List.flatMap_nil] at inductionHypothesis
            rw [← inductionHypothesis]
            rfl
        | cons next others =>
            rw [lines, List.flatMap_cons] at inductionHypothesis
            rw [List.flatMap_cons, ← inductionHypothesis]
            rfl

theorem mem_of_mem_all
    {input : List UInt8} {line : RawLine} (member : line ∈ all input)
    {byte : UInt8} (inside : byte ∈ line.bytes) : byte ∈ input := by
  rw [← flatMap_toBytes_all input]
  exact
    List.mem_flatMap.mpr
      ⟨line, member, List.mem_append_left _ inside⟩

/-! ## Carriage returns before line feeds -/

/-- The line with a carriage return before its line feed, if it has one. -/
def withReturn (line : RawLine) : RawLine :=
  if line.ended then ⟨line.bytes ++ [carriageReturn], true⟩ else line

theorem withReturn_cons (byte : UInt8) (line : RawLine) :
    withReturn ⟨byte :: line.bytes, line.ended⟩ =
      ⟨byte :: line.withReturn.bytes, line.withReturn.ended⟩ := by
  obtain ⟨bytes, ended⟩ := line
  cases ended with
  | false => rfl
  | true => rfl

theorem all_withReturns (input : List UInt8) :
    all (withReturns input) = (all input).map withReturn := by
  induction input with
  | nil => rfl
  | cons byte rest inductionHypothesis =>
      rw [withReturns, List.flatMap_cons, ← withReturns, all_cons]
      by_cases ending : byte = lineFeed
      · rw [if_pos ending, List.cons_append, List.singleton_append,
          all_cons, all_cons, inductionHypothesis, ending]
        rfl
      · rw [if_neg ending, List.singleton_append, all_cons,
          inductionHypothesis, addByte_of_ne ending, addByte_of_ne ending]
        cases all rest with
        | nil => rfl
        | cons next others =>
            rw [List.map_cons, List.map_cons, withReturn_cons]

theorem content_withReturn
    {line : RawLine} (noReturns : carriageReturn ∉ line.bytes) :
    line.withReturn.content = line.content := by
  have kept : line.content = line.bytes := by
    apply if_neg
    intro returned
    exact noReturns (List.mem_of_getLast? returned.2)
  rw [kept, withReturn]
  by_cases ended : line.ended
  · rw [if_pos ended, content, if_pos ⟨rfl, List.getLast?_concat⟩,
      List.dropLast_concat]
  · rw [if_neg ended, kept]

end RawLine

/-! ## The same lines -/

section

variable {input : List UInt8} (noReturns : carriageReturn ∉ input)
include noReturns

theorem readLines_withReturns :
    readLines (withReturns input) = readLines input := by
  rw [readLines, readLines, RawLine.all_withReturns, List.map_map]
  congr 1
  apply List.map_congr_left
  intro line member
  have noReturnsInside : carriageReturn ∉ line.bytes :=
    fun inside => noReturns (RawLine.mem_of_mem_all member inside)
  rw [Function.comp_apply, RawLine.text?, RawLine.text?,
    RawLine.content_withReturn noReturnsInside]

/-- It makes no difference to a session whether lines end with a line feed or
with a carriage return and a line feed. -/
theorem run_withReturns
    {σ : Type} [Roller σ] (inRange : Roller.InRange σ)
    (setting : Option Text) (rollers others : Nat → σ)
    (oneSided : ∀ block ∈ processedBlocks input, OneSided block) :
    processedBlocks (withReturns input) = processedBlocks input ∧
      (∀ setup : Setup σ, run setup (withReturns input) = run setup input) ∧
      ∃ transcript : Transcript,
        run ⟨budget setting, rollers⟩ input = some ⟨transcript, 0⟩ ∧
          run ⟨budget setting, others⟩ (withReturns input) =
            some ⟨transcript, 0⟩ := by
  have same := readLines_withReturns noReturns
  obtain ⟨transcript, answers, othersAnswer⟩ :=
    Session.exists_acceptAll inRange (budget setting) rollers others { } { }
      rfl oneSided
  refine ⟨?_, ?_, { output := prompt } ++ transcript, ?_, ?_⟩
  · rw [processedBlocks, processedBlocks, same]
  · intro setup
    rw [run, run, same]
  · exact run_of_acceptAll answers
  · apply run_of_acceptAll
    rw [same]
    exact othersAnswer

end

/-- The line with a lone carriage return is empty and ends the block. -/
theorem run_block_with_returns :
    carriageReturn ∉ writeLines ["2d1".toList, []] ++ [0xFF] ∧
      withReturns (writeLines ["2d1".toList, []] ++ [0xFF]) =
          Text.bytes "2d1\r\n\r\n".toList ++ [0xFF] ∧
        run ⟨budget none, fun _ => (⟨2⟩ : Scrambler)⟩
            (withReturns (writeLines ["2d1".toList, []] ++ [0xFF])) =
          some
            ⟨⟨"> ... 2\n  2d1 (**1**, **1**) = `2`\n> ".toList, []⟩,
              0⟩ := by
  have noReturns :
      carriageReturn ∉ writeLines ["2d1".toList, []] ++ [0xFF] := by
    decide
  have oneSided :
      ∀ block ∈
          processedBlocks (writeLines ["2d1".toList, []] ++ [0xFF]),
        ∀ expression ∈ expressions block, expression.sides = .one := by
    decide +kernel
  have shown :
      run ⟨budget none, fun _ => (⟨1⟩ : Scrambler)⟩
          (writeLines ["2d1".toList, []] ++ [0xFF]) =
        some
          ⟨⟨"> ... 2\n  2d1 (**1**, **1**) = `2`\n> ".toList, []⟩, 0⟩ := by
    decide +kernel
  obtain ⟨_, _, transcript, withFeeds, withBoth⟩ :=
    run_withReturns noReturns Generator.inRange none
      (fun _ => (⟨1⟩ : Scrambler)) (fun _ => ⟨2⟩) oneSided
  rw [shown] at withFeeds
  cases withFeeds
  exact ⟨noReturns, by decide, withBoth⟩

end DiceNotation.Console
