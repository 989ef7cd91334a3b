import DiceNotation.Proofs.Barriers
import DiceNotation.Proofs.Processing

/-!
# Processing texts part by part

Two texts with a barrier between them are processed by processing the first
and then the second in the context that the first leaves behind
(`RollM.substitute_append_cons`). The gaps at the barrier become one gap, which
is what `Text.weave_gaps_append_cons` says.
-/

namespace DiceNotation

/-! ## Gaps of joined texts -/

namespace Text

theorem dropBytes_add (front rest : Text) (count : Nat) :
    dropBytes (front.byteSize + count) (front ++ rest) =
      dropBytes count rest := by
  induction front with
  | nil => rw [byteSize_nil, Nat.zero_add, List.nil_append]
  | cons head front inductionHypothesis =>
      have positive := head.utf8Size_pos
      obtain ⟨size, sizeEquality⟩ :=
        Nat.exists_eq_add_one_of_ne_zero (Nat.ne_of_gt positive)
      have total :
          byteSize (head :: front) + count =
            (size + byteSize front + count) + 1 := by
        rw [byteSize_cons, sizeEquality]
        omega
      have remaining :
          size + byteSize front + count + 1 - head.utf8Size =
            byteSize front + count := by
        omega
      rw [total, List.cons_append, dropBytes, remaining,
        inductionHypothesis]

theorem slice_shift (front rest : Text) (span : Span) :
    slice (front ++ rest) (span.shift front.byteSize) =
      slice rest span := by
  rw [slice, slice, Span.shift, dropBytes_add, Nat.add_sub_add_left]

theorem gapsFrom_shift (front rest : Text) (cursor : Nat)
    (spans : List Span) :
    gapsFrom (front.byteSize + cursor) (front ++ rest)
        (spans.map (Span.shift front.byteSize)) =
      gapsFrom cursor rest spans := by
  induction spans generalizing cursor with
  | nil => rw [List.map_nil, gapsFrom, gapsFrom, dropBytes_add]
  | cons span spans inductionHypothesis =>
      have gap := slice_shift front rest ⟨cursor, span.start⟩
      have behind := inductionHypothesis span.stop
      rw [List.map_cons, gapsFrom, gapsFrom]
      exact congrArg₂ List.cons gap behind

theorem weave_append_cons (front gap : Text) (gaps fillings : List Text) :
    weave ((front ++ gap) :: gaps) fillings =
      front ++ weave (gap :: gaps) fillings := by
  cases fillings with
  | nil => simp [weave]
  | cons filling fillings => simp [weave]

variable {spans more : List Span} {text rest : Text}

/-- With the cursor farther back the first gap begins farther back. -/
theorem weave_gapsFrom_append
    (before front : Text) (fillings : List Text)
    (cut : CutFrom (before ++ front).byteSize spans rest) :
    weave (gapsFrom before.byteSize (before ++ (front ++ rest)) spans)
        fillings =
      front ++
        weave
          (gapsFrom (before ++ front).byteSize (before ++ (front ++ rest))
            spans)
          fillings := by
  generalize position : (before ++ front).byteSize = reached at cut
  cases cut with
  | nil =>
      have behind := dropBytes_byteSize_append (before ++ front) rest
      rw [List.append_assoc] at behind
      rw [gapsFrom, gapsFrom, dropBytes_byteSize_append, ← position, behind,
        weave_append_cons]
  | @cons _ gap body later spans others =>
      have long := slice_append before (front ++ gap) (body ++ later)
      have short := slice_append (before ++ front) gap (body ++ later)
      subst position
      simp only [List.append_assoc, byteSize_append, Nat.add_assoc]
        at long short ⊢
      rw [gapsFrom, gapsFrom, long, short, weave_append_cons]

/-- What is woven into two texts, one cut behind the other, is woven into each
of them. -/
theorem weave_gapsFrom_append_append
    (before : Text) (fillings others : List Text)
    (cut : CutFrom before.byteSize spans text)
    (cutMore : CutFrom (before ++ text).byteSize more rest)
    (lengths : fillings.length = spans.length) :
    weave
        (gapsFrom before.byteSize (before ++ (text ++ rest)) (spans ++ more))
        (fillings ++ others) =
      weave (gapsFrom before.byteSize (before ++ text) spans) fillings ++
        weave
          (gapsFrom (before ++ text).byteSize (before ++ (text ++ rest))
            more)
          others := by
  generalize position : before.byteSize = reached at cut ⊢
  induction cut generalizing before fillings with
  | nil cursor text =>
      have nothing := List.length_eq_zero_iff.mp lengths
      have last := dropBytes_byteSize_append before text
      have alone : weave [text] [] = text := List.append_nil text
      rw [nothing, List.nil_append, List.nil_append, gapsFrom, ← position,
        last, alone, weave_gapsFrom_append before text others cutMore]
  | @cons cursor gap body later spans cutLater inductionHypothesis =>
      cases fillings with
      | nil => contradiction
      | cons filling fillings =>
          have whole := slice_append before gap (body ++ (later ++ rest))
          have part := slice_append before gap (body ++ later)
          have reached := byteSize_append_append before gap body
          rw [position] at reached
          have behind :=
            inductionHypothesis (before ++ (gap ++ body)) fillings
              (by simpa using cutMore) (Nat.succ.inj lengths) reached
          simp only [List.append_assoc] at behind ⊢
          rw [position] at whole part
          rw [List.cons_append, List.cons_append, gapsFrom, gapsFrom, weave,
            weave, whole, part, behind]
          simp only [List.append_assoc]

theorem CutFrom.shift {cursor : Nat} (offset : Nat)
    (cut : CutFrom cursor spans text) :
    CutFrom (offset + cursor) (spans.map (Span.shift offset)) text := by
  induction cut with
  | nil cursor rest => exact nil (offset + cursor) rest
  | cons cursor gap body others inductionHypothesis =>
      rw [List.map_cons, Span.shift]
      simp only [← Nat.add_assoc] at inductionHypothesis ⊢
      exact cons (offset + cursor) gap body inductionHypothesis

/-- The last gap of the first text and the first gap of the second become one,
with the character between them. -/
theorem weave_gaps_append_cons
    (barrier : Char) {fillings : List Text} (others : List Text)
    (cut : CutFrom 0 spans text) (cutMore : CutFrom 0 more rest)
    (lengths : fillings.length = spans.length) :
    weave
        (gaps (text ++ barrier :: rest)
          (spans ++ more.map (Span.shift (text ++ [barrier]).byteSize)))
        (fillings ++ others) =
      weave (gaps text spans) fillings ++
        barrier :: weave (gaps rest more) others := by
  have moved := cutMore.shift (text ++ [barrier]).byteSize
  rw [Nat.add_zero] at moved
  have behindText :
      CutFrom text.byteSize
        (more.map (Span.shift (text ++ [barrier]).byteSize))
        (barrier :: rest) := by
    rw [byteSize_append] at moved ⊢
    exact moved.prepend [barrier]
  have split :=
    weave_gapsFrom_append_append [] fillings others cut behindText lengths
  have atBarrier := weave_gapsFrom_append text [barrier] others moved
  have alone := gapsFrom_shift (text ++ [barrier]) rest 0 more
  rw [Nat.add_zero, List.append_assoc] at alone
  rw [alone] at atBarrier
  exact split.trans (congrArg (weave (gaps text spans) fillings ++ ·) atBarrier)

end Text

/-! ## What becomes of two texts -/

namespace Processed

/-- What becomes of two texts with a character between them. -/
def join (barrier : Char) : Processed → Processed → Processed
  | untouched first, untouched second =>
      untouched (first ++ barrier :: second)
  | first, second => replaced (first.text ++ barrier :: second.text)

def isUntouched : Processed → Bool
  | untouched _ => true
  | replaced _ => false

/-- What becomes of a text when the totals of its expressions are these. -/
def ofTotals (source : Text) (totals : List Nat) : Processed :=
  if occurrences source = [] then
    untouched source
  else
    replaced
      (Text.weave (source.gaps ((occurrences source).map Occurrence.span))
        (totals.map Text.decimal))

variable {barrier : Char}

theorem text_join (first second : Processed) :
    (first.join barrier second).text =
      first.text ++ barrier :: second.text := by
  cases first <;> cases second <;> rfl

theorem isUntouched_join (first second : Processed) :
    (first.join barrier second).isUntouched =
      (first.isUntouched && second.isUntouched) := by
  cases first <;> cases second <;> rfl

theorem eq_of_text_of_isUntouched {first second : Processed}
    (text : first.text = second.text)
    (isUntouched : first.isUntouched = second.isUntouched) :
    first = second := by
  cases first <;> cases second <;> simp_all [Processed.text,
    Processed.isUntouched]

theorem isUntouched_ofTotals (source : Text) (totals : List Nat) :
    (ofTotals source totals).isUntouched =
      (occurrences source).isEmpty := by
  rw [ofTotals]
  cases occurrences source <;> rfl

theorem text_ofTotals {source : Text} {totals : List Nat}
    (lengths : totals.length = (expressions source).length) :
    (ofTotals source totals).text =
      Text.weave (source.gaps ((occurrences source).map Occurrence.span))
        (totals.map Text.decimal) := by
  rw [ofTotals]
  by_cases nothing : occurrences source = []
  · rw [expressions, nothing] at lengths
    rw [if_pos nothing, nothing, List.length_eq_zero_iff.mp lengths]
    exact (Text.CutFrom.nil 0 source).weave_slices.symm
  · rw [if_neg nothing]
    rfl

theorem ofTotals_append_cons (apart : Barrier barrier) {first second : Text}
    {totals more : List Nat}
    (lengths : totals.length = (expressions first).length)
    (moreLengths : more.length = (expressions second).length) :
    ofTotals (first ++ barrier :: second) (totals ++ more) =
      (ofTotals first totals).join barrier (ofTotals second more) := by
  have spans :
      (occurrences (first ++ barrier :: second)).map Occurrence.span =
        (occurrences first).map Occurrence.span ++
          ((occurrences second).map Occurrence.span).map
            (Span.shift (Text.byteSize (first ++ [barrier]))) := by
    rw [occurrences_append_cons apart, List.map_append, List.map_map,
      List.map_map]
    rfl
  have wholeLengths :
      (totals ++ more).length =
        (expressions (first ++ barrier :: second)).length := by
    rw [expressions_append_cons apart, List.length_append,
      List.length_append, lengths, moreLengths]
  have fillings :
      (totals.map Text.decimal).length =
        ((occurrences first).map Occurrence.span).length := by
    rw [List.length_map, lengths, expressions, List.length_map,
      List.length_map]
  apply eq_of_text_of_isUntouched
  · rw [text_ofTotals wholeLengths, text_join, text_ofTotals lengths,
      text_ofTotals moreLengths, spans, List.map_append]
    exact
      Text.weave_gaps_append_cons barrier _ (cutFrom_occurrences first)
        (cutFrom_occurrences second) fillings
  · rw [isUntouched_join, isUntouched_ofTotals, isUntouched_ofTotals,
      isUntouched_ofTotals, occurrences_append_cons apart]
    cases occurrences first with
    | nil => cases occurrences second <;> rfl
    | cons found others => rfl

end Processed

namespace RollM

variable {σ β : Type}

theorem substitute_eq_map (roll : Expression → RollM σ β) (total : β → Nat)
    (source : Text) :
    substitute roll total source =
      (fun values =>
        (Processed.ofTotals source (values.map total), values)) <$>
        (expressions source).mapM roll := by
  rw [substitute_eq]
  by_cases nothing : occurrences source = []
  · rw [if_pos nothing, expressions, nothing, List.map_nil, List.mapM_nil,
      map_pure, Processed.ofTotals, if_pos nothing]
  · simp only [if_neg nothing, Processed.ofTotals, List.map_map]
    rfl

/-- What is done with rolled values may rely on their number. -/
theorem mapM_bind_congr
    {α γ : Type} {action : α → RollM σ β} {items : List α}
    {next other : List β → RollM σ γ}
    (same :
      ∀ values, values.length = items.length → next values = other values) :
    items.mapM action >>= next = items.mapM action >>= other := by
  induction items generalizing next other with
  | nil =>
      rw [List.mapM_nil, pure_bind, pure_bind, same [] rfl]
  | cons item items inductionHypothesis =>
      simp only [List.mapM_cons, bind_assoc, pure_bind]
      apply bind_congr
      intro value
      apply inductionHypothesis
      intro values lengths
      exact same (value :: values) (congrArg Nat.succ lengths)

theorem substitute_append_cons
    {barrier : Char} (apart : Barrier barrier)
    (roll : Expression → RollM σ β) (total : β → Nat)
    (first second : Text) :
    substitute roll total (first ++ barrier :: second) = do
      let (start, values) ← substitute roll total first
      let (rest, more) ← substitute roll total second
      return (start.join barrier rest, values ++ more) := by
  simp only [substitute_eq_map, expressions_append_cons apart,
    List.mapM_append, bind_map_left, map_bind, bind_pure_comp]
  apply mapM_bind_congr
  intro values lengths
  simp only [Functor.map_map]
  rw [← bind_pure_comp, ← bind_pure_comp]
  apply mapM_bind_congr
  intro more moreLengths
  have joined :=
    Processed.ofTotals_append_cons apart
      ((List.length_map total).trans lengths)
      ((List.length_map total).trans moreLengths)
  rw [List.map_append, joined]

theorem returns_joined
    {action more : Nat → RollM σ β} (steady : Steady action)
    (moreSteady : Steady more) (joined : β → β → β)
    {context after : Context σ} {result : Except RollError β} :
    Returns
        (fun attempts => do
          let start ← action attempts
          let rest ← more attempts
          return joined start rest)
        context (result, after) ↔
      (∃ start between next,
        Returns action context (.ok start, between) ∧
          Returns more between (next, after) ∧
            result = next.map (joined start)) ∨
      ∃ error,
        Returns action context (.error error, after) ∧
          result = .error error := by
  simp only [bind_pure_comp]
  rw [returns_bind steady fun start =>
    sequential_steady.map moreSteady (joined start)]
  simp only [returns_map moreSteady]
  constructor
  · intro returned
    rcases returned with
      ⟨start, between, begun, next, ended, equality⟩ | failed
    · exact Or.inl ⟨start, between, next, begun, ended, equality.symm⟩
    · exact Or.inr failed
  · intro returned
    rcases returned with
      ⟨start, between, next, begun, ended, equality⟩ | failed
    · exact Or.inl ⟨start, between, begun, next, ended, equality.symm⟩
    · exact Or.inr failed

section

variable [Roller σ] {barrier : Char} (apart : Barrier barrier)
include apart

theorem processDetailed_append_cons (attempts : Nat) (first second : Text) :
    processDetailed (σ := σ) attempts (first ++ barrier :: second) = do
      let start ← processDetailed attempts first
      let rest ← processDetailed attempts second
      return (start.1.join barrier rest.1, start.2 ++ rest.2) :=
  substitute_append_cons apart (roll attempts) Roll.total first second

theorem process_append_cons (attempts : Nat) (first second : Text) :
    process (σ := σ) attempts (first ++ barrier :: second) = do
      let start ← process attempts first
      let rest ← process attempts second
      return start.join barrier rest := by
  simp only [process, substitute_append_cons apart, bind_assoc, pure_bind]

/-- A text with a barrier in it is processed by processing what stands before
the barrier and, unless that fails, what stands behind it in the context that
is left, with or without the rolls. The parts are joined with the barrier
between them, and the whole is untouched if both parts are. -/
theorem returns_process_across_barrier
    (first second : Text) (context after : Context σ) :
    (∀ result : Except RollError Processed,
      Returns (process · (first ++ barrier :: second)) context
          (result, after) ↔
        (∃ start between next,
          Returns (process · first) context (.ok start, between) ∧
            Returns (process · second) between (next, after) ∧
              result = next.map (start.join barrier)) ∨
        ∃ error,
          Returns (process · first) context (.error error, after) ∧
            result = .error error) ∧
    (∀ result : Except RollError (Processed × List Roll),
      Returns (processDetailed · (first ++ barrier :: second)) context
          (result, after) ↔
        (∃ start between next,
          Returns (processDetailed · first) context
              (.ok start, between) ∧
            Returns (processDetailed · second) between (next, after) ∧
              result =
                next.map fun rest =>
                  (start.1.join barrier rest.1, start.2 ++ rest.2)) ∨
        ∃ error,
          Returns (processDetailed · first) context
              (.error error, after) ∧
            result = .error error) ∧
    ∀ start rest : Processed,
      (start.join barrier rest).text =
          start.text ++ barrier :: rest.text ∧
        (start.join barrier rest).isUntouched =
          (start.isUntouched && rest.isUntouched) := by
  refine ⟨?_, ?_, ?_⟩
  · intro result
    simp only [process_append_cons apart]
    exact returns_joined (steady_process first) (steady_process second) _
  · intro result
    simp only [processDetailed_append_cons apart]
    exact
      returns_joined (steady_processDetailed first)
        (steady_processDetailed second)
        fun start rest =>
          (start.1.join barrier rest.1, start.2 ++ rest.2)
  · intro start rest
    exact
      ⟨Processed.text_join start rest,
        Processed.isUntouched_join start rest⟩

end

/-- In `2d4 d6b2` the die behind the space shows the faces that the first two
dice have left, and is rolled again once. -/
theorem process_across_space :
    Barrier ' ' ∧
      Returns (process · ("2d4".toList ++ ' ' :: "d6b2".toList))
        (Context.limited 4 (⟨[3, 1, 2, 5], 0⟩ : FaceTape))
        (.ok (.replaced "4 5".toList), ⟨some 4, 4, ⟨[], 4⟩⟩) ∧
      Returns (processDetailed · ("2d4".toList ++ ' ' :: "d6b2".toList))
        (Context.limited 4 (⟨[3, 1, 2, 5], 0⟩ : FaceTape))
        (.ok
            (.replaced "4 5".toList,
              [⟨⟨⟨2, by decide⟩, ⟨4, by decide⟩, 0, 0⟩,
                  [⟨⟨4, by decide⟩, [], 3⟩, ⟨⟨4, by decide⟩, [], 1⟩]⟩,
                ⟨⟨.one, ⟨6, by decide⟩, 0, 2⟩,
                  [⟨⟨6, by decide⟩, [2], 5⟩]⟩]),
          ⟨some 4, 4, ⟨[], 4⟩⟩) := by
  have space : Barrier ' ' := by decide
  have foundFirst :
      occurrences "2d4".toList =
        [⟨⟨⟨2, by decide⟩, ⟨4, by decide⟩, 0, 0⟩, ⟨0, 3⟩⟩] := by
    decide +kernel
  have foundSecond :
      occurrences "d6b2".toList =
        [⟨⟨.one, ⟨6, by decide⟩, 0, 2⟩, ⟨0, 4⟩⟩] := by
    decide +kernel
  have begun :
      Returns (processDetailed · "2d4".toList)
        (Context.limited 4 (⟨[3, 1, 2, 5], 0⟩ : FaceTape))
        (.ok
            (.replaced "4".toList,
              [⟨⟨⟨2, by decide⟩, ⟨4, by decide⟩, 0, 0⟩,
                [⟨⟨4, by decide⟩, [], 3⟩, ⟨⟨4, by decide⟩, [], 1⟩]⟩]),
          ⟨some 4, 2, ⟨[2, 5], 2⟩⟩) := by
    rw [returns_iff_exists (steady_processDetailed _)]
    refine ⟨1, ?_⟩
    rw [processDetailed, substitute_eq, expressions, foundFirst]
    rfl
  have ended :
      Returns (processDetailed · "d6b2".toList)
        (⟨some 4, 2, ⟨[2, 5], 2⟩⟩ : Context FaceTape)
        (.ok
            (.replaced "5".toList,
              [⟨⟨.one, ⟨6, by decide⟩, 0, 2⟩,
                [⟨⟨6, by decide⟩, [2], 5⟩]⟩]),
          ⟨some 4, 4, ⟨[], 4⟩⟩) := by
    rw [returns_iff_exists (steady_processDetailed _)]
    refine ⟨2, ?_⟩
    rw [processDetailed, substitute_eq, expressions, foundSecond]
    rfl
  obtain ⟨totals, rolls, _⟩ :=
    returns_process_across_barrier space "2d4".toList "d6b2".toList
      (Context.limited 4 (⟨[3, 1, 2, 5], 0⟩ : FaceTape))
      ⟨some 4, 4, ⟨[], 4⟩⟩
  have begunTotals := returns_process_of_processDetailed begun
  have endedTotals := returns_process_of_processDetailed ended
  exact
    ⟨space,
      (totals _).mpr
        (Or.inl ⟨_, _, _, begunTotals, endedTotals, rfl⟩),
      (rolls _).mpr (Or.inl ⟨_, _, _, begun, ended, rfl⟩)⟩

end RollM

end DiceNotation
