import DiceNotation.Console.Budget
import DiceNotation.Console.Session
import DiceNotation.Proofs.Coupling
import DiceNotation.Proofs.Lines
import DiceNotation.Roller.Scrambler
import DiceNotation.Roller.Tape

/-!
# Blocks of a session

All that a session keeps of a closed block is that there was one more. Where
all dice have one side, what is shown for a block depends on its text and on
the budget alone (`Console.Setup.shown?_of_returns`), and sessions with the
same open block go on alike (`Console.Session.exists_acceptAll`).
-/

namespace DiceNotation

open RollM

variable {σ τ : Type} [Roller σ] [Roller τ]

namespace Console

/-! ## Transcripts -/

namespace Transcript

theorem append_assoc (first second third : Transcript) :
    first ++ second ++ third = first ++ (second ++ third) :=
  congrArg₂ mk (List.append_assoc _ _ _) (List.append_assoc _ _ _)

theorem append_empty (transcript : Transcript) :
    transcript ++ ({ } : Transcript) = transcript :=
  congrArg₂ mk (List.append_nil _) (List.append_nil _)

end Transcript

/-! ## One block -/

namespace Setup

/-- What is shown for a block. -/
def shown? (setup : Setup σ) (block : Nat) (source : Text) :
    Option Transcript :=
  (runIn (setup.context block)
    (processDetailed setup.attempts source)).map fun ending =>
      report ending.1

/-- What the library says of a text, whatever roller it is given, is shown for
the block. -/
theorem shown?_of_returns
    (inRange : Roller.InRange σ) (imageInRange : Roller.InRange τ)
    {source : Text} (oneSided : OneSided source) (setup : Setup σ)
    (block : Nat) {roller : τ}
    {result : Except RollError (Processed × List Roll)} {after : Context τ}
    (returned :
      Returns (processDetailed · source)
        (Context.limited setup.budget roller) (result, after)) :
    setup.shown? block source = some (report result) := by
  obtain ⟨enough, ends⟩ := returned
  have keeps : Roller.Keeps fun (_ : σ) (_ : τ) => True :=
    fun _ _ _ _ => trivial
  have agrees :
      (setup.context block).Agrees (fun _ _ => True)
        (Context.limited setup.budget roller) :=
    ⟨rfl, rfl, trivial⟩
  obtain ⟨⟨shown, reached⟩, ending, runs, imageRuns, same, _⟩ :=
    coupled_processDetailed keeps inRange imageInRange
      (setup.budget.toNat + 1) enough oneSided _ _ agrees
  rw [ends (enough + 1) (Nat.le_succ enough)] at imageRuns
  cases imageRuns
  rw [shown?, attempts, runs]
  cases same with
  | ok values => rw [values]; rfl
  | error error => rfl

end Setup

theorem exists_returns_of_oneSided
    (inRange : Roller.InRange σ) {source : Text}
    (oneSided : OneSided source) (context : Context σ) :
    ∃ ending, Returns (processDetailed · source) context ending := by
  have keeps : Roller.Keeps fun (_ _ : σ) => True :=
    fun _ _ _ _ => trivial
  obtain ⟨ending, _, runs, _⟩ :=
    coupled_processDetailed keeps inRange inRange 0 0 oneSided context
      context ⟨rfl, rfl, trivial⟩
  exact
    ⟨ending,
      (returns_iff_exists (steady_processDetailed source)).mpr ⟨1, runs⟩⟩

/-- The same is shown for a block whichever roller it gets. -/
theorem exists_shown?
    (inRange : Roller.InRange σ) {source : Text}
    (oneSided : OneSided source) (limit : UInt64)
    (rollers others : Nat → σ) (block another : Nat) :
    ∃ shown,
      Setup.shown? ⟨limit, rollers⟩ block source = some shown ∧
        Setup.shown? ⟨limit, others⟩ another source = some shown := by
  obtain ⟨⟨result, after⟩, returned⟩ :=
    exists_returns_of_oneSided inRange oneSided
      (Context.limited limit (rollers block))
  exact
    ⟨report result,
      Setup.shown?_of_returns inRange inRange oneSided ⟨limit, rollers⟩
        block returned,
      Setup.shown?_of_returns inRange inRange oneSided ⟨limit, others⟩
        another returned⟩

/-! ## Lines -/

/-- The texts of the blocks that the lines close, with the lines gathered
before them given last first. -/
def closedBlocks : List Text → List Text → List Text
  | _, [] => []
  | gathered, [] :: lines => blockText gathered :: closedBlocks [] lines
  | gathered, line :: lines => closedBlocks (line :: gathered) lines

/-- The texts of all blocks that are rolled. -/
def processedBlocks (input : List UInt8) : List Text :=
  closedBlocks [] (readLines input)

namespace Session

/-- The session after a line. -/
def next (session : Session) : Text → Session
  | [] => { blocks := session.blocks + 1 }
  | line => { session with lines := line :: session.lines }

/-- The answer to a line. -/
def answer? (setup : Setup σ) (session : Session) :
    Text → Option Transcript
  | [] =>
      (setup.shown? session.blocks (blockText session.lines)).map
        fun shown => shown ++ { output := prompt }
  | _ => some { output := continuation }

variable (setup : Setup σ) (session : Session)

theorem accept_eq (line : Text) :
    session.accept setup line =
      (session.answer? setup line).map fun answer =>
        (answer, session.next line) := by
  cases line with
  | nil =>
      rw [accept, answer?, Setup.shown?]
      cases
        runIn (setup.context session.blocks)
          (processDetailed setup.attempts (blockText session.lines)) with
      | none => rfl
      | some ending => rfl
  | cons letter rest => rfl

theorem acceptAll_cons (line : Text) (lines : List Text) :
    acceptAll setup session (line :: lines) = do
      let answer ← session.answer? setup line
      let later ← acceptAll setup (session.next line) lines
      return answer ++ later := by
  rw [acceptAll, accept_eq]
  cases session.answer? setup line with
  | none => rfl
  | some answer => rfl

theorem acceptAll_append (front rest : List Text) :
    acceptAll setup session (front ++ rest) = do
      let before ← acceptAll setup session front
      let after ← acceptAll setup (front.foldl next session) rest
      return before ++ after := by
  induction front generalizing session with
  | nil =>
      rw [List.nil_append, acceptAll, List.foldl_nil]
      cases acceptAll setup session rest with
      | none => rfl
      | some after => rfl
  | cons line front inductionHypothesis =>
      rw [List.cons_append, acceptAll_cons, acceptAll_cons,
        inductionHypothesis, List.foldl_cons]
      simp only [bind_assoc, pure_bind, Transcript.append_assoc]

theorem lines_next
    {session other : Session} (same : session.lines = other.lines)
    (line : Text) :
    (session.next line).lines = (other.next line).lines := by
  cases line with
  | nil => rfl
  | cons letter letters => exact congrArg (List.cons _) same

theorem closedBlocks_cons (line : Text) (lines : List Text) :
    closedBlocks session.lines (line :: lines) =
      closedBlocks session.lines [line] ++
        closedBlocks (session.next line).lines lines := by
  cases line with
  | nil => rfl
  | cons letter letters => rfl

theorem closedBlocks_append (front rest : List Text) :
    closedBlocks session.lines (front ++ rest) =
      closedBlocks session.lines front ++
        closedBlocks (front.foldl next session).lines rest := by
  induction front generalizing session with
  | nil => rfl
  | cons line front inductionHypothesis =>
      rw [List.cons_append, closedBlocks_cons session line (front ++ rest),
        inductionHypothesis, ← List.append_assoc, ← closedBlocks_cons,
        List.foldl_cons]

variable {session} {lines : List Text}

theorem lines_foldl_next
    (closed : lines.getLast? = some []) :
    (lines.foldl next session).lines = [] := by
  obtain ⟨front, whole⟩ := List.getLast?_eq_some_iff.mp closed
  rw [whole, List.foldl_append]
  rfl

theorem foldl_next_of_ne_nil
    (nonempty : ∀ line ∈ lines, line ≠ []) :
    lines.foldl next session =
      { session with lines := lines.reverse ++ session.lines } := by
  induction lines generalizing session with
  | nil => rfl
  | cons line lines inductionHypothesis =>
      obtain ⟨present, others⟩ := List.forall_mem_cons.mp nonempty
      cases line with
      | nil => contradiction
      | cons letter letters =>
          rw [List.foldl_cons, inductionHypothesis others,
            List.reverse_cons, List.append_assoc]
          rfl

theorem acceptAll_of_ne_nil
    (nonempty : ∀ line ∈ lines, line ≠ []) :
    acceptAll setup session lines =
      some
        { output :=
            (List.replicate lines.length continuation).flatten } := by
  induction lines generalizing session with
  | nil => rfl
  | cons line lines inductionHypothesis =>
      obtain ⟨present, others⟩ := List.forall_mem_cons.mp nonempty
      cases line with
      | nil => contradiction
      | cons letter letters =>
          rw [acceptAll_cons, inductionHypothesis others]
          rfl

section

variable (inRange : Roller.InRange σ) (limit : UInt64)
  (rollers others : Nat → σ) (session other : Session)
include inRange

theorem exists_answer?
    (same : session.lines = other.lines) (line : Text)
    (oneSided :
      ∀ block ∈ closedBlocks session.lines [line], OneSided block) :
    ∃ answer,
      session.answer? ⟨limit, rollers⟩ line = some answer ∧
        other.answer? ⟨limit, others⟩ line = some answer := by
  cases line with
  | nil =>
      obtain ⟨shown, shows, othersShow⟩ :=
        exists_shown? inRange (oneSided _ List.mem_cons_self) limit rollers
          others session.blocks other.blocks
      rw [answer?, answer?, ← same, shows, othersShow]
      exact ⟨_, rfl, rfl⟩
  | cons letter letters => exact ⟨_, rfl, rfl⟩

/-- Sessions with the same open block go on alike, whatever has been rolled in
them before. -/
theorem exists_acceptAll
    (same : session.lines = other.lines)
    (oneSided :
      ∀ block ∈ closedBlocks session.lines lines, OneSided block) :
    ∃ transcript,
      acceptAll ⟨limit, rollers⟩ session lines = some transcript ∧
        acceptAll ⟨limit, others⟩ other lines = some transcript := by
  induction lines generalizing session other with
  | nil => exact ⟨{ }, rfl, rfl⟩
  | cons line lines inductionHypothesis =>
      rw [closedBlocks_cons, List.forall_mem_append] at oneSided
      obtain ⟨answer, answers, othersAnswer⟩ :=
        exists_answer? inRange limit rollers others session other same line
          oneSided.1
      obtain ⟨later, follows, othersFollow⟩ :=
        inductionHypothesis (session.next line) (other.next line)
          (lines_next same line) oneSided.2
      rw [acceptAll_cons, acceptAll_cons, answers, othersAnswer]
      simp only [Option.bind_eq_bind, Option.bind_some, follows,
        othersFollow]
      exact ⟨_, rfl, rfl⟩

end

end Session

/-! ## Whole sessions -/

theorem run_of_acceptAll
    {setup : Setup σ} {input : List UInt8} {transcript : Transcript}
    (answers :
      Session.acceptAll setup { } (readLines input) = some transcript) :
    run setup input =
      some ⟨{ output := prompt } ++ transcript, 0⟩ := by
  rw [run, answers]
  rfl

theorem processedBlocks_append
    {front : List UInt8} (valid : front.toByteArray.IsValidUTF8)
    (ends : front.getLast? = some lineFeed)
    (closed : (readLines front).getLast? = some [])
    (rest : List UInt8) :
    processedBlocks (front ++ rest) =
      processedBlocks front ++ processedBlocks rest := by
  have cut := Session.closedBlocks_append { } (readLines front)
  have nothing :
      ((readLines front).foldl Session.next { }).lines = [] :=
    Session.lines_foldl_next closed
  rw [nothing] at cut
  rw [processedBlocks, readLines_append valid ends]
  exact cut (readLines rest)

/-- Input that ends with the end of a block can be given to one session and
what follows it to another. -/
theorem run_append_of_closed
    (inRange : Roller.InRange σ) (setting : Option Text)
    (whole first second : Nat → σ) {front rest : List UInt8}
    (valid : front.toByteArray.IsValidUTF8)
    (ends : front.getLast? = some lineFeed)
    (closed : (readLines front).getLast? = some [])
    (oneSided :
      ∀ block ∈ processedBlocks (front ++ rest), OneSided block) :
    ∃ before after : Transcript,
      run ⟨budget setting, first⟩ front = some ⟨before, 0⟩ ∧
        run ⟨budget setting, second⟩ rest =
          some ⟨{ output := prompt } ++ after, 0⟩ ∧
        run ⟨budget setting, whole⟩ (front ++ rest) =
          some ⟨before ++ after, 0⟩ := by
  rw [processedBlocks_append valid ends closed,
    List.forall_mem_append] at oneSided
  obtain ⟨oneSidedFront, oneSidedRest⟩ := oneSided
  obtain ⟨before, alone, together⟩ :=
    Session.exists_acceptAll inRange (budget setting) first whole { } { }
      rfl oneSidedFront
  let behind := (readLines front).foldl Session.next { }
  have nothing : behind.lines = [] := Session.lines_foldl_next closed
  obtain ⟨after, aloneBehind, togetherBehind⟩ :=
    Session.exists_acceptAll inRange (budget setting) second whole { }
      behind nothing.symm oneSidedRest
  have joined :
      Session.acceptAll ⟨budget setting, whole⟩ { }
          (readLines (front ++ rest)) =
        some (before ++ after) := by
    rw [readLines_append valid ends, Session.acceptAll_append, together,
      Option.bind_eq_bind, Option.bind_some, togetherBehind]
    rfl
  refine
    ⟨{ output := prompt } ++ before, after, run_of_acceptAll alone,
      run_of_acceptAll aloneBehind, ?_⟩
  rw [Transcript.append_assoc]
  exact run_of_acceptAll joined

/-- The dice of a failed block do not count in the next one. -/
theorem run_behind_failed_block :
    ∃ before after : Transcript,
      before =
          ⟨"> ... > ".toList,
            "Error: too many dice rolled (limit 1)\n".toList⟩ ∧
        { output := prompt } ++ after =
          (⟨"> ... 1\n  1d1 (**1**) = `1`\n> ".toList, []⟩ : Transcript) ∧
        run ⟨budget (some "1".toList), fun _ => (⟨3⟩ : Scrambler)⟩
            (writeLines ["2d1".toList, []] ++
              writeLines ["d1".toList, []]) =
          some ⟨before ++ after, 0⟩ := by
  have valid :
      (writeLines ["2d1".toList, []]).toByteArray.IsValidUTF8 :=
    ⟨"2d1\n\n".toList, rfl⟩
  have oneSided :
      ∀ block ∈
          processedBlocks
            (writeLines ["2d1".toList, []] ++
              writeLines ["d1".toList, []]),
        ∀ expression ∈ expressions block, expression.sides = .one := by
    decide +kernel
  have failed :
      run ⟨budget (some "1".toList), fun _ => (⟨1⟩ : Scrambler)⟩
          (writeLines ["2d1".toList, []]) =
        some
          ⟨⟨"> ... > ".toList,
            "Error: too many dice rolled (limit 1)\n".toList⟩, 0⟩ := by
    decide +kernel
  have rolled :
      run ⟨budget (some "1".toList), fun _ => (⟨2⟩ : Scrambler)⟩
          (writeLines ["d1".toList, []]) =
        some ⟨⟨"> ... 1\n  1d1 (**1**) = `1`\n> ".toList, []⟩, 0⟩ := by
    decide +kernel
  obtain ⟨before, after, alone, aloneBehind, together⟩ :=
    run_append_of_closed Generator.inRange (some "1".toList)
      (fun _ => (⟨3⟩ : Scrambler)) (fun _ => ⟨1⟩) (fun _ => ⟨2⟩) valid
      (by decide) (by decide +kernel) oneSided
  rw [failed] at alone
  rw [rolled] at aloneBehind
  exact
    ⟨before, after,
      congrArg Ending.transcript (Option.some.inj alone).symm,
      congrArg Ending.transcript (Option.some.inj aloneBehind).symm,
      together⟩

/-- What is shown for a block is what the library makes of its text. -/
theorem run_block
    (inRange : Roller.InRange σ) (libraryInRange : Roller.InRange τ)
    (setting : Option Text) (rollers : Nat → σ) (roller : τ)
    (lines : List Text) {block : Text}
    (nonempty : ∀ line ∈ lines, line ≠ [])
    (free : ∀ line ∈ lines, '\n' ∉ line)
    (kept : ∀ line ∈ lines, line.getLast? ≠ some '\r')
    (trimmed :
      block = Text.trimEnd (lines.flatMap fun line => line ++ ['\n']))
    (oneSided : OneSided block) :
    ∃ result after shown,
      Returns (processDetailed · block)
          (Context.limited (budget setting) roller) (result, after) ∧
        run ⟨budget setting, rollers⟩ (writeLines (lines ++ [[]])) =
            some
              ⟨{ output :=
                  prompt ++
                    (List.replicate lines.length continuation).flatten } ++
                shown ++ { output := prompt }, 0⟩ ∧
          match result with
          | .ok (processed, rolls) =>
              shown =
                  { output :=
                      processed.text ++ ['\n'] ++
                        rolls.flatMap fun rolled =>
                          "  ".toList ++ Style.markdown.roll rolled ++
                            ['\n'] } ∧
                processed.text =
                    Text.weave
                      (block.gaps
                        ((occurrences block).map Occurrence.span))
                      (rolls.map fun rolled =>
                        Text.decimal rolled.total) ∧
                  rolls.map Roll.expression = expressions block
          | .error error =>
              shown =
                { errors :=
                    "Error: ".toList ++ error.message ++ ['\n'] } := by
  let setup : Setup σ := ⟨budget setting, rollers⟩
  have read : readLines (writeLines (lines ++ [[]])) = lines ++ [[]] := by
    apply readLines_writeLines
    · exact List.forall_mem_append.mpr ⟨free, by simp⟩
    · exact List.forall_mem_append.mpr ⟨kept, by simp⟩
  have gathered : blockText (lines.reverse ++ []) = block := by
    rw [blockText, List.append_nil, List.reverse_reverse, trimmed]
  obtain ⟨⟨result, after⟩, returned⟩ :=
    exists_returns_of_oneSided libraryInRange oneSided
      (Context.limited (budget setting) roller)
  have shows : setup.shown? 0 block = some (report result) :=
    setup.shown?_of_returns inRange libraryInRange oneSided 0 returned
  have answers :
      Session.acceptAll setup { } (readLines (writeLines (lines ++ [[]]))) =
        some
          ({ output :=
              (List.replicate lines.length continuation).flatten } ++
            (report result ++ { output := prompt } ++ { })) := by
    rw [read, Session.acceptAll_append,
      Session.acceptAll_of_ne_nil setup nonempty,
      Session.foldl_next_of_ne_nil nonempty, Session.acceptAll_cons,
      Session.answer?, gathered, shows]
    rfl
  refine ⟨result, after, report result, returned, ?_, ?_⟩
  · rw [run_of_acceptAll answers, Transcript.append_empty,
      ← Transcript.append_assoc, ← Transcript.append_assoc]
    rfl
  · cases result with
    | error error => rfl
    | ok detailed =>
        obtain ⟨rolled, woven⟩ :=
          exists_rollsTo_of_returns_processDetailed returned
        exact ⟨rfl, woven, rolled.map_expression⟩

/-- The blank line and the space at the end of the block are not shown. -/
theorem run_block_with_blank_line :
    run ⟨budget (some "2".toList), fun _ => (⟨7⟩ : Scrambler)⟩
        (writeLines (["dice:".toList, "2d1 ".toList, " ".toList] ++ [[]])) =
      some
        ⟨{ output := "> ... ... ... ".toList } ++
          { output := "dice:\n2\n  2d1 (**1**, **1**) = `2`\n".toList } ++
          { output := prompt }, 0⟩ := by
  have oneSided :
      ∀ expression ∈ expressions "dice:\n2d1".toList,
        expression.sides = .one := by
    decide +kernel
  have expected :
      Returns (processDetailed · "dice:\n2d1".toList)
        (Context.limited (budget (some "2".toList))
          (⟨[0, 0], 0, 0⟩ : WordTape))
        (.ok
            (.replaced "dice:\n2".toList,
              [⟨⟨⟨2, by decide⟩, .one, 0, 0⟩,
                [⟨.one, [], 1⟩, ⟨.one, [], 1⟩]⟩]),
          ⟨some 2, 2, ⟨[], 0, 2⟩⟩) := by
    apply (returns_iff_exists (steady_processDetailed _)).mpr
    exact ⟨1, by decide +kernel⟩
  obtain ⟨result, after, shown, returned, shows, same⟩ :=
    run_block Generator.inRange Generator.inRange (some "2".toList)
      (fun _ => (⟨7⟩ : Scrambler)) (⟨[0, 0], 0, 0⟩ : WordTape)
      ["dice:".toList, "2d1 ".toList, " ".toList] (by decide) (by decide)
      (by decide) (by decide +kernel) oneSided
  cases returned.unique expected
  rw [same.1] at shows
  exact shows.trans (by decide +kernel)

end Console

end DiceNotation
