import DiceNotation.Proofs.LineEndings

/-!
# Unfinished input

A block that no empty line ends is never rolled, whether the input ends within
it or a line cannot be read. Input that is cut off by a line that is not UTF-8
is read as if it ended before that line (`Console.readLines_invalid_append`).
Lines that are not empty leave the block open
(`Console.readLines_flatMap_toBytes`). What a session shows for either is
`Console.run_unfinished`.
-/

namespace DiceNotation.Console

/-- UTF-8 that does not end within a line. -/
structure WholeLines (input : List UInt8) : Prop where
  valid : input.toByteArray.IsValidUTF8
  ends : ∀ last ∈ input.getLast?, last = lineFeed

/-- Lines that go on with a block: UTF-8, not empty, each of them but the last
with a line feed. -/
structure OpenLines (lines : List RawLine) : Prop where
  free : ∀ line ∈ lines, lineFeed ∉ line.bytes
  valid : ∀ line ∈ lines, line.bytes.toByteArray.IsValidUTF8
  nonempty : ∀ line ∈ lines, line.content ≠ []
  ended : ∀ line ∈ lines.dropLast, line.ended = true

theorem WholeLines.readLines_append
    {front : List UInt8} (whole : WholeLines front) (rest : List UInt8) :
    readLines (front ++ rest) = readLines front ++ readLines rest := by
  cases last : front.getLast? with
  | none =>
      rw [List.getLast?_eq_none_iff.mp last]
      rfl
  | some byte =>
      rw [whole.ends byte last] at last
      exact Console.readLines_append whole.valid last rest

/-! ## A line that is not UTF-8 -/

namespace RawLine

variable {line : RawLine}

/-- A line is encoded text if it is without its line ending. -/
theorem exists_bytes_eq_of_content_eq
    {letters : Text} (same : line.content = letters.bytes) :
    ∃ others : Text, line.bytes = others.bytes := by
  rw [content] at same
  split at same
  · next returned =>
      -- The content lacks the carriage return, which is a character too.
      obtain ⟨_, last⟩ := returned
      obtain ⟨front, whole⟩ := List.getLast?_eq_some_iff.mp last
      have encoded : String.utf8EncodeChar '\r' = [carriageReturn] := by
        decide
      rw [whole, List.dropLast_concat] at same
      refine ⟨letters ++ ['\r'], ?_⟩
      rw [whole, same, Text.bytes_concat, encoded]
  · exact ⟨letters, same⟩

theorem text?_eq_none
    (invalid : ¬ line.bytes.toByteArray.IsValidUTF8) :
    line.text? = none := by
  have invalidContent : ¬ line.content.toByteArray.IsValidUTF8 := by
    intro valid
    obtain ⟨letters, same⟩ := Text.exists_eq_bytes_of_isValidUTF8 valid
    obtain ⟨others, whole⟩ := exists_bytes_eq_of_content_eq same
    exact invalid ⟨others, congrArg List.toByteArray whole⟩
  rw [text?, String.fromUTF8?, dif_neg invalidContent, Option.map_none]

/-- What stands before a line feed or the end of the input is the first
line. -/
theorem exists_all_append_eq
    {front rest : List UInt8} (free : lineFeed ∉ front)
    (nonempty : front ≠ [])
    (ends : ∀ first ∈ rest.head?, first = lineFeed) :
    ∃ ended others, all (front ++ rest) = ⟨front, ended⟩ :: others := by
  cases rest with
  | nil => exact ⟨false, [], all_append_of_not_mem free nonempty []⟩
  | cons first rest =>
      rw [ends first rfl, all_line free]
      exact ⟨true, all rest, rfl⟩

end RawLine

theorem readLines_invalid_append
    {bad rest : List UInt8} (free : lineFeed ∉ bad)
    (invalid : ¬ bad.toByteArray.IsValidUTF8)
    (ends : ∀ first ∈ rest.head?, first = lineFeed) :
    readLines (bad ++ rest) = [] := by
  have nonempty : bad ≠ [] := by
    intro nothing
    exact invalid ⟨[], congrArg List.toByteArray nothing⟩
  obtain ⟨ended, others, lines⟩ :=
    RawLine.exists_all_append_eq free nonempty ends
  rw [readLines, lines, List.map_cons, RawLine.text?_eq_none invalid]
  rfl

/-! ## Lines that are not empty -/

namespace OpenLines

variable {lines : List RawLine}

theorem of_cons {line : RawLine} (openLines : OpenLines (line :: lines)) :
    OpenLines lines where
  free := (List.forall_mem_cons.mp openLines.free).2
  valid := (List.forall_mem_cons.mp openLines.valid).2
  nonempty := (List.forall_mem_cons.mp openLines.nonempty).2
  ended := by
    intro other member
    apply openLines.ended
    cases lines with
    | nil => contradiction
    | cons next lines => exact List.mem_cons_of_mem line member

/-- Only the last line can be without a line feed. -/
theorem ended_or_eq_nil {line : RawLine} (openLines : OpenLines (line :: lines)) :
    line.ended = true ∨ line.ended = false ∧ lines = [] := by
  cases lines with
  | nil =>
      cases line.ended with
      | false => exact Or.inr ⟨rfl, rfl⟩
      | true => exact Or.inl rfl
  | cons next lines => exact Or.inl (openLines.ended line List.mem_cons_self)

/-- Lines that are written out are cut where they were. -/
theorem all_flatMap_toBytes (openLines : OpenLines lines) :
    RawLine.all (lines.flatMap RawLine.toBytes) = lines := by
  induction lines with
  | nil => rfl
  | cons line lines inductionHypothesis =>
      have later := inductionHypothesis openLines.of_cons
      have free := openLines.free line List.mem_cons_self
      obtain ⟨bytes, ended⟩ := line
      rw [List.flatMap_cons]
      rcases openLines.ended_or_eq_nil with feed | ⟨noFeed, nothing⟩
      · cases feed
        have written :
            RawLine.toBytes ⟨bytes, true⟩ = bytes ++ [lineFeed] := rfl
        rw [written, List.append_assoc, List.singleton_append,
          RawLine.all_line free, later]
      · cases noFeed
        subst nothing
        have written : RawLine.toBytes ⟨bytes, false⟩ = bytes ++ [] := rfl
        have nonempty : bytes ≠ [] := by
          intro empty
          apply openLines.nonempty _ List.mem_cons_self
          rw [empty]
          rfl
        rw [written, List.flatMap_nil, List.append_nil]
        exact RawLine.all_append_of_not_mem free nonempty []

end OpenLines

theorem RawLine.exists_text?_eq_some
    {line : RawLine} (valid : line.bytes.toByteArray.IsValidUTF8)
    (nonempty : line.content ≠ []) :
    ∃ text : Text, line.text? = some text ∧ text ≠ [] := by
  obtain ⟨letters, same⟩ := Text.exists_eq_bytes_of_isValidUTF8 valid
  obtain ⟨text, content⟩ := exists_content_eq_bytes same
  refine ⟨text, text?_of_content_eq_bytes content, ?_⟩
  intro empty
  apply nonempty
  rw [content, empty]
  rfl

/-- Elements that are all present are all read. -/
theorem presentFront_of_forall
    {α : Type} {holds : α → Prop} {elements : List (Option α)}
    (each :
      ∀ element ∈ elements, ∃ value, element = some value ∧ holds value) :
    (presentFront elements).length = elements.length ∧
      ∀ value ∈ presentFront elements, holds value := by
  induction elements with
  | nil => exact ⟨rfl, List.forall_mem_nil holds⟩
  | cons element elements inductionHypothesis =>
      obtain ⟨⟨value, same, here⟩, others⟩ := List.forall_mem_cons.mp each
      obtain ⟨length, later⟩ := inductionHypothesis others
      rw [same, presentFront]
      exact
        ⟨congrArg Nat.succ length, List.forall_mem_cons.mpr ⟨here, later⟩⟩

/-- As many texts are read as there are lines, and none is empty. -/
theorem readLines_flatMap_toBytes
    {lines : List RawLine} (openLines : OpenLines lines) :
    (readLines (lines.flatMap RawLine.toBytes)).length = lines.length ∧
      ∀ text ∈ readLines (lines.flatMap RawLine.toBytes), text ≠ [] := by
  have each :
      ∀ read ∈ lines.map RawLine.text?,
        ∃ text : Text, read = some text ∧ text ≠ [] := by
    rw [List.forall_mem_map]
    intro line member
    exact
      RawLine.exists_text?_eq_some (openLines.valid line member)
        (openLines.nonempty line member)
  rw [readLines, openLines.all_flatMap_toBytes,
    ← List.length_map RawLine.text?]
  exact presentFront_of_forall each

/-! ## Sessions -/

theorem closedBlocks_of_ne_nil
    {gathered lines : List Text} (nonempty : ∀ line ∈ lines, line ≠ []) :
    closedBlocks gathered lines = [] := by
  induction lines generalizing gathered with
  | nil => rfl
  | cons line lines inductionHypothesis =>
      obtain ⟨present, others⟩ := List.forall_mem_cons.mp nonempty
      cases line with
      | nil => contradiction
      | cons letter letters => exact inductionHypothesis others

section

variable {front rest : List UInt8} (whole : WholeLines front)
  (opened : ∀ line ∈ readLines rest, line ≠ [])
include whole opened

theorem processedBlocks_append_of_ne_nil :
    processedBlocks (front ++ rest) = processedBlocks front := by
  have cut :=
    Session.closedBlocks_append { } (readLines front) (readLines rest)
  rw [closedBlocks_of_ne_nil opened, List.append_nil] at cut
  rw [processedBlocks, whole.readLines_append]
  exact cut

/-- Lines that are not empty are answered one by one, and no block is rolled
for them. -/
theorem run_append_of_ne_nil
    {σ : Type} [Roller σ] {setup : Setup σ} {transcript : Transcript}
    (answers :
      Session.acceptAll setup { } (readLines front) = some transcript) :
    run setup (front ++ rest) =
      some
        ⟨{ output := prompt } ++ transcript ++
          { output :=
              (List.replicate (readLines rest).length
                continuation).flatten }, 0⟩ := by
  rw [Transcript.append_assoc]
  apply run_of_acceptAll
  rw [whole.readLines_append, Session.acceptAll_append, answers,
    Option.bind_eq_bind, Option.bind_some,
    Session.acceptAll_of_ne_nil setup opened]
  rfl

end

/-- A session that is cut off by a line that is not UTF-8 shows what it shows
without that line and all behind it. Further lines that are not empty are
answered by nothing but a sign that the block may go on. In neither case is one
more block rolled. -/
theorem run_unfinished
    {σ : Type} [Roller σ] (inRange : Roller.InRange σ)
    (setting : Option Text) (rollers others : Nat → σ)
    {front : List UInt8} (whole : WholeLines front)
    (oneSided : ∀ block ∈ processedBlocks front, OneSided block) :
    ∃ transcript : Transcript,
      run ⟨budget setting, rollers⟩ front = some ⟨transcript, 0⟩ ∧
      (∀ bad rest : List UInt8, lineFeed ∉ bad →
        ¬ bad.toByteArray.IsValidUTF8 →
        (∀ first ∈ rest.head?, first = lineFeed) →
          run ⟨budget setting, others⟩ (front ++ (bad ++ rest)) =
              some ⟨transcript, 0⟩ ∧
            processedBlocks (front ++ (bad ++ rest)) =
              processedBlocks front) ∧
      ∀ lines : List RawLine, OpenLines lines →
        run ⟨budget setting, others⟩
              (front ++ lines.flatMap RawLine.toBytes) =
            some
              ⟨transcript ++
                { output :=
                    (List.replicate lines.length
                      continuation).flatten }, 0⟩ ∧
          processedBlocks (front ++ lines.flatMap RawLine.toBytes) =
            processedBlocks front := by
  obtain ⟨transcript, answers, othersAnswer⟩ :=
    Session.exists_acceptAll inRange (budget setting) rollers others { } { }
      rfl oneSided
  refine
    ⟨{ output := prompt } ++ transcript, run_of_acceptAll answers, ?_, ?_⟩
  · intro bad rest free invalid ends
    have nothing := readLines_invalid_append free invalid ends
    have opened : ∀ line ∈ readLines (bad ++ rest), line ≠ [] := by
      rw [nothing]
      exact List.forall_mem_nil _
    have shown := run_append_of_ne_nil whole opened othersAnswer
    rw [nothing, List.length_nil, List.replicate_zero, List.flatten_nil,
      Transcript.append_empty] at shown
    exact ⟨shown, processedBlocks_append_of_ne_nil whole opened⟩
  · intro lines openLines
    obtain ⟨length, opened⟩ := readLines_flatMap_toBytes openLines
    have shown := run_append_of_ne_nil whole opened othersAnswer
    rw [length] at shown
    exact ⟨shown, processedBlocks_append_of_ne_nil whole opened⟩

/-- The open block `2d1` is not rolled, be it cut off by the byte `0xFF` or
followed by a line and a lone carriage return. -/
theorem run_with_open_block :
    run ⟨budget (some "5".toList), fun _ => (⟨2⟩ : Scrambler)⟩
        (writeLines ["d1".toList, [], "2d1".toList] ++
          ([0x64, 0xFF] ++ [lineFeed, lineFeed])) =
      some ⟨⟨"> ... 1\n  1d1 (**1**) = `1`\n> ... ".toList, []⟩, 0⟩ ∧
    run ⟨budget (some "5".toList), fun _ => (⟨2⟩ : Scrambler)⟩
        (writeLines ["d1".toList, [], "2d1".toList] ++
          [(⟨Text.bytes "x".toList, true⟩ : RawLine),
            ⟨[carriageReturn], false⟩].flatMap RawLine.toBytes) =
      some
        ⟨⟨"> ... 1\n  1d1 (**1**) = `1`\n> ... ... ... ".toList, []⟩,
          0⟩ := by
  have whole :
      WholeLines (writeLines ["d1".toList, [], "2d1".toList]) := by
    refine ⟨⟨"d1\n\n2d1\n".toList, rfl⟩, ?_⟩
    intro last member
    cases member
    rfl
  have oneSided :
      ∀ block ∈
          processedBlocks (writeLines ["d1".toList, [], "2d1".toList]),
        ∀ expression ∈ expressions block, expression.sides = .one := by
    decide +kernel
  have invalid : ¬ [0x64, 0xFF].toByteArray.IsValidUTF8 := by
    decide +kernel
  have openLines :
      OpenLines
        [⟨Text.bytes "x".toList, true⟩, ⟨[carriageReturn], false⟩] := by
    refine ⟨by decide, ?_, by decide, by decide⟩
    rw [List.forall_mem_cons, List.forall_mem_singleton]
    exact ⟨⟨"x".toList, rfl⟩, ⟨"\r".toList, rfl⟩⟩
  have shown :
      run ⟨budget (some "5".toList), fun _ => (⟨1⟩ : Scrambler)⟩
          (writeLines ["d1".toList, [], "2d1".toList]) =
        some
          ⟨⟨"> ... 1\n  1d1 (**1**) = `1`\n> ... ".toList, []⟩, 0⟩ := by
    decide +kernel
  obtain ⟨transcript, alone, cutOff, prolonged⟩ :=
    run_unfinished Generator.inRange (some "5".toList)
      (fun _ => (⟨1⟩ : Scrambler)) (fun _ => ⟨2⟩) whole oneSided
  rw [shown] at alone
  cases alone
  have behind :
      ∀ first ∈ [lineFeed, lineFeed].head?, first = lineFeed := by
    intro first member
    cases member
    rfl
  exact
    ⟨(cutOff _ _ (by decide) invalid behind).1,
      (prolonged _ openLines).1⟩

end DiceNotation.Console
