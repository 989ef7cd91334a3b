import DiceNotation.Proofs.Attempts
import DiceNotation.Proofs.Ledger
import DiceNotation.Proofs.Rescanning
import DiceNotation.Proofs.Settings

/-!
# What a block may spend

Dice with one side and no threshold show nothing but ones, so a block of them
is settled before it is rolled. It is refused if it asks for more dice than the
budget, and otherwise each expression comes to its count and its addend
(`Console.Setup.exists_shown?_of_plain`). Nothing else in the session has a part
in it (`Console.run_plain_block`).
-/

namespace DiceNotation

/-! ## White space behind a text -/

theorem Text.barrier_of_isBlank
    {letter : Char} (blank : isBlank letter = true) : Barrier letter := by
  have different : ∀ sign : Char, isBlank sign = false → letter ≠ sign := by
    intro sign solid same
    rw [← same, blank] at solid
    contradiction
  have noDigit : letter.isDigit = false := by
    by_contra digit
    have solid := not_isBlank_of_isDigit (Bool.not_eq_false _ ▸ digit)
    rw [blank] at solid
    contradiction
  exact
    ⟨noDigit, different 'd' (by decide), different '+' (by decide),
      different 'b' (by decide)⟩

theorem occurrences_eq_nil {text : Text} (noDie : 'd' ∉ text) :
    occurrences text = [] := by
  rw [occurrences_eq, Match.all, Match.searchFrom_eq_nil 0 noDie]
  rfl

/-- White space at the end of a text has no part in its notation. -/
theorem occurrences_trimEnd (text : Text) :
    occurrences text.trimEnd = occurrences text := by
  obtain ⟨behind, blank, whole⟩ := Text.exists_append_trimEnd text
  cases behind with
  | nil =>
      rw [List.append_nil] at whole
      rw [← whole]
  | cons first others =>
      obtain ⟨here, later⟩ := List.forall_mem_cons.mp blank
      have noDie : 'd' ∉ others := fun member =>
        absurd (later 'd' member) (by decide)
      conv_rhs => rw [whole]
      rw [occurrences_append_cons (Text.barrier_of_isBlank here),
        occurrences_eq_nil noDie, List.map_nil, List.append_nil]

/-! ## Dice asked for -/

/-- How many dice the expressions ask for. -/
def diceIn (expressions : List Expression) : Nat :=
  (expressions.map fun expression => expression.count.toNat).sum

namespace Ledger

variable {ledger : Ledger} {expressions : List Expression}
  {limit : UInt64}

/-- Expressions that ask for no more than the limit are all entered. -/
theorem enter_eq_ok
    (present : ledger.limit = some limit)
    (keepable : ∀ expression ∈ expressions, expression.Keepable)
    (fits :
      ledger.rolled.toNat + diceIn expressions ≤ limit.toNat) :
    (ledger.enter expressions).1 = .ok () := by
  induction expressions generalizing ledger with
  | nil => rfl
  | cons expression others inductionHypothesis =>
      obtain ⟨here, later⟩ := List.forall_mem_cons.mp keepable
      rw [diceIn, List.map_cons, List.sum_cons, ← diceIn] at fits
      have within :
          ledger.rolled.toNat + expression.count.toNat ≤
            limit.toNat := by
        omega
      have affords : ledger.Affords expression.count.toNat :=
        Context.affords_of_le present within
      have counted :
          (ledger.add expression).rolled.toNat =
            ledger.rolled.toNat + expression.count.toNat :=
        Context.toNat_rolled_count_of_le within
      have stillPresent : (ledger.add expression).limit = some limit :=
        present
      rw [enter_of_affords here affords]
      exact inductionHypothesis stillPresent later (by omega)

/-- Expressions that ask for more than the limit are refused. -/
theorem enter_eq_tooManyDice
    (present : ledger.limit = some limit)
    (bound : limit.toNat < UInt64.size - 1)
    (kept : ledger.rolled.toNat ≤ limit.toNat)
    (keepable : ∀ expression ∈ expressions, expression.Keepable)
    (exceeds :
      limit.toNat < ledger.rolled.toNat + diceIn expressions) :
    (ledger.enter expressions).1 = .error (.tooManyDice limit) := by
  apply ledger.enter_eq_tooManyDice_iff.mpr
  refine ⟨present, bound, ?_⟩
  rcases List.eq_nil_or_concat expressions with
    nothing | ⟨front, last, whole⟩
  · rw [nothing, diceIn, List.map_nil, List.sum_nil] at exceeds
    omega
  · rw [List.concat_eq_append] at whole
    rw [whole] at keepable exceeds
    exact ⟨front, last, [], whole, keepable, exceeds⟩

end Ledger

/-! ## Dice that show ones -/

/-- The dice have one side and no threshold. -/
def Expression.Plain (expression : Expression) : Prop :=
  expression.sides = .one ∧ expression.brutal = 0

/-- The roll of an expression with one-sided dice. -/
def Expression.ones (expression : Expression) : Roll :=
  ⟨expression, List.replicate expression.count.toNat ⟨.one, [], 1⟩⟩

theorem Expression.Plain.keepable
    {expression : Expression} (plain : expression.Plain) :
    expression.Keepable := by
  rw [Keepable, plain.1, plain.2]
  decide

theorem Expression.total_ones (expression : Expression) :
    expression.ones.total =
      expression.count.toNat + expression.addend.toNat := by
  rw [ones, Roll.total, List.map_replicate, sumFaces_eq_sum,
    List.map_replicate, List.sum_replicate]
  simp

namespace RollM

open Context

variable {σ : Type} [Roller σ] (inRange : Roller.InRange σ)
  {context after : Context σ}
include inRange

theorem eq_ones_of_returns_roll
    {expression : Expression} {rolled : Roll}
    (single : expression.sides = .one)
    (returned :
      Returns (roll · expression) context (.ok rolled, after)) :
    rolled = expression.ones := by
  obtain ⟨enough, ends⟩ := returned
  have keeps : Roller.Keeps fun (_ _ : σ) => True :=
    fun _ _ _ _ => trivial
  have settled := Expression.settled_of_sides_eq_one single
  obtain ⟨⟨result, reached⟩, ⟨image, _⟩, runs, _, same, _⟩ :=
    coupled_roll keeps inRange inRange enough enough settled context
      context ⟨rfl, rfl, trivial⟩
  rw [ends (enough + 1) (Nat.le_succ enough)] at runs
  cases runs
  cases same with
  | ok once => exact once.1.eq_of_one single

theorem RollsTo.eq_map_ones
    {expressions : List Expression} {rolls : List Roll}
    (single : ∀ expression ∈ expressions, expression.sides = .one)
    (rolled : RollsTo roll context expressions rolls after) :
    rolls = expressions.map Expression.ones := by
  induction rolled with
  | nil => rfl
  | cons first rest inductionHypothesis =>
      obtain ⟨here, others⟩ := List.forall_mem_cons.mp single
      rw [eq_ones_of_returns_roll inRange here first,
        inductionHypothesis others, List.map_cons]

/-- Plain dice are refused or all rolled, by how many they are. -/
theorem exists_returns_mapM_roll_of_plain
    {expressions : List Expression} {limit : UInt64} (roller : σ)
    (bound : limit.toNat < UInt64.size - 1)
    (plain : ∀ expression ∈ expressions, expression.Plain) :
    ∃ result after,
      Returns (fun attempts => expressions.mapM (roll attempts))
          (limited limit roller) (result, after) ∧
        (limit.toNat < diceIn expressions →
          result = .error (.tooManyDice limit)) ∧
        (diceIn expressions ≤ limit.toNat →
          result = .ok (expressions.map Expression.ones)) := by
  have settled : ∀ expression ∈ expressions, expression.Settled :=
    fun expression member => Or.inl (plain expression member).2
  have keepable : ∀ expression ∈ expressions, expression.Keepable :=
    fun expression member => (plain expression member).keepable
  let ledger : Ledger := limited limit []
  have empty : ledger.rolled.toNat = 0 := rfl
  obtain ⟨result, returned, same⟩ :=
    exists_returns_mapM_roll settled
      (fun (reached : σ) (_ : Roller.Reachable roller reached) =>
        inRange reached)
      ledger
  refine ⟨result, _, returned, ?_, ?_⟩
  · intro exceeds
    rw [Ledger.enter_eq_tooManyDice rfl bound (Nat.zero_le _) keepable
      (by omega)] at same
    exact map_eq_error_iff.mp same
  · intro fits
    rw [Ledger.enter_eq_ok rfl keepable (by omega)] at same
    rcases (returns_mapM steady_roll _ _).mp returned with
      ⟨rolls, rolled, succeeds⟩ | ⟨error, _, failed⟩
    · have ones :=
        rolled.eq_map_ones inRange fun expression member =>
          (plain expression member).1
      rw [succeeds, ones]
    · rw [failed] at same
      contradiction

end RollM

/-! ## Plain blocks -/

namespace Console

/-- What is reported for a block that asks for more than so many dice. -/
def refusal (limit : Nat) : Transcript :=
  { errors :=
      "Error: too many dice rolled (limit ".toList ++
        Text.decimal limit ++ ")\n".toList }

/-- The block without the white space at its end and with the count and the
addend of each expression, added up, in its place. -/
def summedText (block : Text) : Text :=
  Text.weave
    (Text.gaps block.trimEnd ((occurrences block).map Occurrence.span))
    ((expressions block).map fun expression =>
      Text.decimal
        (expression.count.toNat + expression.addend.toNat))

theorem report_tooManyDice (limit : UInt64) :
    report (.error (.tooManyDice limit)) = refusal limit.toNat := by
  have message :
      (RollError.tooManyDice limit).message =
        "too many dice rolled (limit ".toList ++
          Text.decimal limit.toNat ++ ")".toList :=
    rfl
  have front :
      "Error: too many dice rolled (limit ".toList =
        "Error: ".toList ++ "too many dice rolled (limit ".toList := by
    decide
  have back : ")\n".toList = ")".toList ++ ['\n'] := by decide
  rw [report, refusal, message, front, back]
  simp only [List.append_assoc]

theorem errors_refusal_ne_nil (limit : Nat) :
    (refusal limit).errors ≠ [] := by
  apply List.append_ne_nil_of_right_ne_nil
  decide

theorem text_ofTotals_trimEnd (block : Text) :
    (Processed.ofTotals block.trimEnd
        ((expressions block).map fun expression =>
          expression.ones.total)).text =
      summedText block := by
  have lengths :
      ((expressions block).map fun expression =>
          expression.ones.total).length =
        (expressions block.trimEnd).length := by
    rw [List.length_map, expressions, expressions, occurrences_trimEnd]
  rw [Processed.text_ofTotals lengths, occurrences_trimEnd, summedText,
    List.map_map]
  simp only [Function.comp_def, Expression.total_ones]

variable {σ : Type} [Roller σ]

/-- A plain block is refused if it asks for more dice than the budget.
Otherwise its sums are shown, and all dice of its breakdown are ones. -/
theorem Setup.exists_shown?_of_plain
    (inRange : Roller.InRange σ) {setup : Setup σ}
    (bounded : setup.budget.toNat < UInt64.size - 1) (number : Nat)
    {block : Text}
    (plain : ∀ expression ∈ expressions block, expression.Plain) :
    ∃ shown,
      setup.shown? number block.trimEnd = some shown ∧
        (shown = refusal setup.budget.toNat ↔
          setup.budget.toNat < diceIn (expressions block)) ∧
        (diceIn (expressions block) ≤ setup.budget.toNat →
          shown =
            { output :=
                summedText block ++ ['\n'] ++
                  (expressions block).flatMap fun expression =>
                    breakdownLine expression.ones }) := by
  have same : expressions block.trimEnd = expressions block := by
    rw [expressions, expressions, occurrences_trimEnd]
  have oneSided : OneSided block.trimEnd := by
    rw [OneSided, same]
    exact fun expression member => (plain expression member).1
  obtain ⟨result, after, returned, exceeding, fitting⟩ :=
    RollM.exists_returns_mapM_roll_of_plain inRange
      (setup.roller number) bounded plain
  rw [← same] at returned
  have processed := RollM.returns_processDetailed_of_mapM returned
  have shows :=
    setup.shown?_of_returns inRange inRange oneSided number processed
  refine ⟨_, shows, ⟨?_, ?_⟩, ?_⟩
  · intro refused
    by_contra fits
    have errors := congrArg Transcript.errors refused
    rw [fitting (Nat.le_of_not_lt fits)] at errors
    exact errors_refusal_ne_nil _ errors.symm
  · intro exceeds
    rw [exceeding exceeds]
    exact report_tooManyDice setup.budget
  · intro fits
    have text := text_ofTotals_trimEnd block
    rw [fitting fits]
    simp only [Except.map, report, List.map_map, Function.comp_def,
      text, List.flatMap_map]

namespace Session

variable {setup : Setup σ} {session : Session} {lines : List Text}

/-- The answers to the lines of a block and to the empty line that ends it. -/
theorem acceptAll_block
    {shown : Transcript} (start : session.lines = [])
    (nonempty : ∀ line ∈ lines, line ≠ [])
    (shows :
      setup.shown? session.blocks (blockText lines.reverse) =
        some shown) :
    acceptAll setup session (lines ++ [[]]) =
      some
        ({ output :=
            (List.replicate lines.length continuation).flatten } ++
          (shown ++ { output := prompt })) := by
  have ending :
      acceptAll setup (lines.foldl next session) [[]] =
        some (shown ++ { output := prompt }) := by
    rw [foldl_next_of_ne_nil nonempty, start, List.append_nil,
      acceptAll_cons, answer?, shows]
    exact congrArg some (Transcript.append_empty _)
  rw [acceptAll_append, acceptAll_of_ne_nil setup nonempty, ending]
  rfl

theorem lines_foldl_next_of_closed
    {before : List Text} (closed : ∀ last ∈ before.getLast?, last = []) :
    (before.foldl next { }).lines = [] := by
  cases last : before.getLast? with
  | none =>
      rw [List.getLast?_eq_none_iff.mp last]
      rfl
  | some line =>
      rw [closed line last] at last
      exact lines_foldl_next last

end Session

/-- What a session shows whose input is cut at a block. -/
theorem run_of_block
    {setup : Setup σ} {input : List UInt8} {before lines behind : List Text}
    {earlier shown later : Transcript}
    (read : readLines input = before ++ (lines ++ [] :: behind))
    (start : (before.foldl Session.next { }).lines = [])
    (nonempty : ∀ line ∈ lines, line ≠ [])
    (answersBefore :
      Session.acceptAll setup { } before = some earlier)
    (shows :
      setup.shown? (before.foldl Session.next { }).blocks
          (blockText lines.reverse) =
        some shown)
    (answersBehind :
      Session.acceptAll setup
          ((before ++ (lines ++ [[]])).foldl Session.next { }) behind =
        some later) :
    run setup input =
      some
        ⟨{ output := prompt } ++ earlier ++
          { output := (List.replicate lines.length continuation).flatten } ++
          shown ++ { output := prompt } ++ later, 0⟩ := by
  have whole :
      readLines input = before ++ (lines ++ [[]]) ++ behind := by
    rw [read, List.append_assoc, List.append_assoc,
      List.singleton_append]
  have answersBlock := Session.acceptAll_block start nonempty shows
  have answers :
      Session.acceptAll setup { } (readLines input) =
        some
          (earlier ++
            ({ output :=
                (List.replicate lines.length continuation).flatten } ++
              (shown ++ { output := prompt })) ++ later) := by
    rw [whole, Session.acceptAll_append, Session.acceptAll_append,
      answersBefore]
    simp only [Option.bind_eq_bind, Option.bind_some]
    rw [answersBlock, answersBehind]
    rfl
  rw [run_of_acceptAll answers]
  simp only [Transcript.append_assoc]

/-- A setting stands for exactly one budget. Below the greatest of them a
session answers all its lines, and a block of plain dice is answered alike
wherever it stands: it is refused just if it asks for more dice than the
budget, and otherwise the sums are shown in the place of its expressions, with
the breakdowns below. -/
theorem run_plain_block
    (inRange : Roller.InRange σ) (setting : Option Text)
    (rollers : Nat → σ)
    (bounded : (budget setting).toNat < UInt64.size - 1)
    {input : List UInt8} {before lines behind : List Text}
    (read : readLines input = before ++ (lines ++ [] :: behind))
    (closed : ∀ last ∈ before.getLast?, last = [])
    (nonempty : ∀ line ∈ lines, line ≠ []) {block : Text}
    (gathered : block = lines.flatMap fun line => line ++ ['\n'])
    (plain : ∀ expression ∈ expressions block, expression.Plain) :
    (∀ number,
      Configures setting number ↔ number = (budget setting).toNat) ∧
      ∃ earlier shown later : Transcript,
        Session.acceptAll ⟨budget setting, rollers⟩ { } before =
            some earlier ∧
          Session.acceptAll ⟨budget setting, rollers⟩
              ((before ++ (lines ++ [[]])).foldl Session.next { })
              behind =
            some later ∧
          run ⟨budget setting, rollers⟩ input =
            some
              ⟨{ output := prompt } ++ earlier ++
                { output :=
                    (List.replicate lines.length
                      continuation).flatten } ++
                shown ++ { output := prompt } ++ later, 0⟩ ∧
          (shown = refusal (budget setting).toNat ↔
            (budget setting).toNat < diceIn (expressions block)) ∧
          (diceIn (expressions block) ≤ (budget setting).toNat →
            shown =
              { output :=
                  summedText block ++ ['\n'] ++
                    (expressions block).flatMap fun expression =>
                      breakdownLine expression.ones }) := by
  let setup : Setup σ := ⟨budget setting, rollers⟩
  have limited : setup.budget.toNat < UInt64.size - 1 := bounded
  have start := Session.lines_foldl_next_of_closed closed
  have text : blockText lines.reverse = block.trimEnd := by
    rw [blockText, List.reverse_reverse, gathered]
  obtain ⟨earlier, answersBefore⟩ :=
    Session.exists_acceptAll_of_limited limited { } before
  obtain ⟨shown, shows, refused, printed⟩ :=
    Setup.exists_shown?_of_plain inRange limited
      (before.foldl Session.next { }).blocks plain
  rw [← text] at shows
  obtain ⟨later, answersBehind⟩ :=
    Session.exists_acceptAll_of_limited limited
      ((before ++ (lines ++ [[]])).foldl Session.next { }) behind
  have runs :=
    run_of_block read start nonempty answersBefore shows answersBehind
  exact
    ⟨fun number => configures_iff, earlier, shown, later, answersBefore,
      answersBehind, runs, refused, printed⟩

/-- With the setting `+02` three dice in a block are one too many, though no
line of the block holds more than two and the blocks around it are answered. -/
theorem run_three_dice_of_two :
    (∀ number, Configures (some " +02\t".toList) number ↔ number = 2) ∧
      run ⟨budget (some " +02\t".toList), fun _ => (⟨5⟩ : Scrambler)⟩
          (writeLines
            ["d6b9".toList, [], "2d1".toList, "d1+4 ".toList, [],
              "2d1+3".toList, []]) =
        some
          ⟨⟨"> ... > ... ... > ... 5\n  2d1+3 (**1**, **1**) = `5`\n> ".toList,
            "Error: brutal threshold 9 leaves no face of a d6 to keep\n".toList ++
              "Error: too many dice rolled (limit 2)\n".toList⟩, 0⟩ := by
  have read :
      readLines
          (writeLines
            ["d6b9".toList, [], "2d1".toList, "d1+4 ".toList, [],
              "2d1+3".toList, []]) =
        ["d6b9".toList, []] ++
          (["2d1".toList, "d1+4 ".toList] ++ [] ::
            ["2d1+3".toList, []]) := by
    decide +kernel
  have closed :
      ∀ last ∈ ["d6b9".toList, []].getLast?, last = ([] : Text) := by
    intro last member
    cases member
    rfl
  have gathered :
      "2d1\nd1+4 \n".toList =
        ["2d1".toList, "d1+4 ".toList].flatMap
          fun line => line ++ ['\n'] := by
    decide
  have plain :
      ∀ expression ∈ expressions "2d1\nd1+4 \n".toList,
        expression.sides = .one ∧ expression.brutal = 0 := by
    decide +kernel
  obtain
      ⟨configures, earlier, shown, later, before, behind, runs,
        refused, _⟩ :=
    run_plain_block Generator.inRange (some " +02\t".toList)
      (fun _ => (⟨5⟩ : Scrambler)) (by decide +kernel) read closed
      (by decide) gathered plain
  have two : (budget (some " +02\t".toList)).toNat = 2 := by
    decide +kernel
  have answeredBefore :
      Session.acceptAll
          ⟨budget (some " +02\t".toList), fun _ => (⟨5⟩ : Scrambler)⟩
          { } ["d6b9".toList, []] =
        some
          ⟨"... > ".toList,
            "Error: brutal threshold 9 leaves no face of a d6 to keep\n".toList⟩ := by
    decide +kernel
  have answeredBehind :
      Session.acceptAll
          ⟨budget (some " +02\t".toList), fun _ => (⟨5⟩ : Scrambler)⟩
          ((["d6b9".toList, []] ++
              (["2d1".toList, "d1+4 ".toList] ++ [[]])).foldl
            Session.next { })
          ["2d1+3".toList, []] =
        some ⟨"... 5\n  2d1+3 (**1**, **1**) = `5`\n> ".toList, []⟩ := by
    decide +kernel
  rw [answeredBefore] at before
  rw [answeredBehind] at behind
  cases before
  cases behind
  rw [refused.mpr (by decide +kernel), two] at runs
  rw [two] at configures
  exact ⟨configures, runs.trans (by decide +kernel)⟩

end Console

end DiceNotation
