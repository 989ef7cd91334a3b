import DiceNotation.Proofs.Scan

/-!
# Barriers

A character that is neither a digit nor a sign of dice notation keeps apart
what stands before it and what stands behind it
(`occurrences_append_cons`). No class of characters in the dice pattern accepts
it, and any pattern with that property matches in front of it as if the text
ended there (`Pattern.fronts_append_cons`).
-/

namespace DiceNotation

/-- The character is neither a digit nor a sign of dice notation. -/
def Barrier (letter : Char) : Prop :=
  letter.isDigit = false ∧ letter ≠ 'd' ∧ letter ≠ '+' ∧ letter ≠ 'b'

instance (letter : Char) : Decidable (Barrier letter) :=
  inferInstanceAs
    (Decidable
      (letter.isDigit = false ∧ letter ≠ 'd' ∧ letter ≠ '+' ∧
        letter ≠ 'b'))

/-! ## Patterns in front of a barrier -/

namespace Pattern

/-- No class of characters in the pattern accepts `barrier`. -/
def Refuses (barrier : Char) : Pattern → Prop
  | letter accepts => accepts barrier = false
  | many accepts => accepts barrier = false
  | both first second => first.Refuses barrier ∧ second.Refuses barrier
  | optional body => body.Refuses barrier

/-- A front of a text and its rest, when more text follows. -/
def followedBy (more : Text) (front : Text × Text) : Text × Text :=
  (front.1, front.2 ++ more)

variable {barrier : Char}

theorem runs_append_cons
    {accepts : Char → Bool} (refused : accepts barrier = false)
    (text more : Text) :
    runs accepts (text ++ barrier :: more) =
      (runs accepts text).map (followedBy (barrier :: more)) := by
  induction text with
  | nil => simp [runs, refused, followedBy]
  | cons head rest inductionHypothesis =>
      rw [List.cons_append, runs, runs, inductionHypothesis]
      by_cases accepted : accepts head
      · simp [accepted, followedBy, Function.comp_def]
      · simp [accepted, followedBy]

theorem fronts_append_cons
    {pattern : Pattern} (refuses : pattern.Refuses barrier)
    (text more : Text) :
    pattern.fronts (text ++ barrier :: more) =
      (pattern.fronts text).map (followedBy (barrier :: more)) := by
  induction pattern generalizing text with
  | letter accepts =>
      have refused : accepts barrier = false := refuses
      cases text with
      | nil => simp [fronts, refused]
      | cons head rest =>
          rw [List.cons_append, fronts, fronts]
          by_cases accepted : accepts head
          · simp [accepted, followedBy]
          · simp [accepted]
  | many accepts => exact runs_append_cons refuses text more
  | both first second firstHypothesis secondHypothesis =>
      rw [fronts, fronts, firstHypothesis refuses.1, List.flatMap_map,
        List.map_flatMap]
      congr 1
      funext front
      rw [followedBy, secondHypothesis refuses.2, List.map_map,
        List.map_map]
      rfl
  | optional body bodyHypothesis =>
      rw [fronts, fronts, bodyHypothesis refuses, List.map_append]
      rfl

/-- A pattern that refuses the barrier matches what is before it as if nothing
followed. -/
theorem match?_append_cons
    {pattern : Pattern} (refuses : pattern.Refuses barrier)
    (text more : Text) :
    pattern.match? (text ++ barrier :: more) =
      (pattern.match? text).map (followedBy (barrier :: more)) := by
  rw [match?, match?, fronts_append_cons refuses, List.head?_map]

theorem refuses_dice (apart : Barrier barrier) : dice.Refuses barrier := by
  rcases apart with ⟨noDigit, noDie, noPlus, noBrutal⟩
  simp [dice, number, suffix, sign, Refuses, noDigit, noDie, noPlus,
    noBrutal]

end Pattern

/-! ## Searches across a barrier -/

/-- The span, when `offset` more bytes stand before it. -/
def Span.shift (offset : Nat) (span : Span) : Span :=
  ⟨offset + span.start, offset + span.stop⟩

/-- The occurrence, when `offset` more bytes stand before it. -/
def Occurrence.shift (offset : Nat) (found : Occurrence) : Occurrence :=
  ⟨found.expression, found.span.shift offset⟩

namespace Match

/-- The match, when `offset` more bytes stand before it. -/
def shift (offset : Nat) (found : Match) : Match :=
  ⟨offset + found.start, found.text⟩

theorem occurrence?_shift (offset : Nat) (found : Match) :
    (found.shift offset).occurrence? =
      found.occurrence?.map (Occurrence.shift offset) := by
  have sameUse : (found.shift offset).Usable ↔ found.Usable := Iff.rfl
  have moved : (found.shift offset).span = found.span.shift offset :=
    congrArg (Span.mk (offset + found.start)) (Nat.add_assoc _ _ _)
  by_cases usable : found.Usable
  · rw [occurrence?, occurrence?, dif_pos usable,
      dif_pos (sameUse.mpr usable), moved]
    rfl
  · rw [occurrence?, occurrence?, dif_neg usable,
      dif_neg (sameUse.not.mpr usable)]
    rfl

theorem searchFrom_add (offset start : Nat) (text : Text) :
    searchFrom (offset + start) text =
      (searchFrom start text).map (shift offset) := by
  induction start, text using searchFrom.induct with
  | case1 start =>
      rw [searchFrom, searchFrom]
      rfl
  | case2 start head rest front later matched inductionHypothesis =>
      rw [searchFrom_of_match? _ matched, searchFrom_of_match? _ matched,
        Nat.add_assoc, inductionHypothesis]
      rfl
  | case3 start head rest missing inductionHypothesis =>
      rw [searchFrom_cons _ missing, searchFrom_cons _ missing,
        Nat.add_assoc, inductionHypothesis]

variable {barrier : Char} (apart : Barrier barrier)
include apart

theorem searchFrom_append_cons (start : Nat) (first second : Text) :
    searchFrom start (first ++ barrier :: second) =
      searchFrom start first ++
        searchFrom (start + (first ++ [barrier]).byteSize) second := by
  have refuses := Pattern.refuses_dice apart
  induction start, first using searchFrom.induct with
  | case1 start =>
      have missing := Pattern.match?_append_cons refuses [] second
      rw [List.nil_append] at missing ⊢
      rw [searchFrom_cons start missing, searchFrom]
      rfl
  | case2 start head rest front later matched inductionHypothesis =>
      have matchedBefore :=
        Pattern.match?_append_cons refuses (head :: rest) second
      rw [matched] at matchedBefore
      have sizes :
          Text.byteSize (head :: rest ++ [barrier]) =
            front.byteSize + (later ++ [barrier]).byteSize := by
        rw [← Pattern.append_of_match? matched, List.append_assoc,
          Text.byteSize_append]
      rw [searchFrom_of_match? start matchedBefore,
        searchFrom_of_match? start matched, inductionHypothesis, sizes,
        Nat.add_assoc]
      rfl
  | case3 start head rest missing inductionHypothesis =>
      have missingBefore :=
        Pattern.match?_append_cons refuses (head :: rest) second
      rw [missing] at missingBefore
      rw [List.cons_append] at missingBefore ⊢
      rw [searchFrom_cons start missingBefore,
        searchFrom_cons start missing, inductionHypothesis,
        List.cons_append, Text.byteSize_cons, Nat.add_assoc]

end Match

/-- Notation before a barrier and behind it is found apart. -/
theorem occurrences_append_cons
    {barrier : Char} (apart : Barrier barrier) (first second : Text) :
    occurrences (first ++ barrier :: second) =
      occurrences first ++
        (occurrences second).map
          (Occurrence.shift (first ++ [barrier]).byteSize) := by
  have moved := Match.searchFrom_add (first ++ [barrier]).byteSize 0 second
  rw [occurrences_eq, occurrences_eq, occurrences_eq, Match.all, Match.all,
    Match.all, Match.searchFrom_append_cons apart, Nat.zero_add,
    List.filterMap_append, List.map_filterMap]
  rw [Nat.add_zero] at moved
  rw [moved, List.filterMap_map]
  congr 2
  funext found
  exact Match.occurrence?_shift _ found

theorem expressions_append_cons
    {barrier : Char} (apart : Barrier barrier) (first second : Text) :
    expressions (first ++ barrier :: second) =
      expressions first ++ expressions second := by
  rw [expressions, occurrences_append_cons apart, List.map_append,
    List.map_map]
  rfl

/-! ## Texts joined by barriers -/

/-- A text and further texts, each of them behind a separating character. -/
def Text.joined (first : Text) (others : List (Char × Text)) : Text :=
  first ++ others.flatMap fun other => other.1 :: other.2

theorem expressions_joined
    (first : Text) {others : List (Char × Text)}
    (apart : ∀ other ∈ others, Barrier other.1) :
    expressions (first.joined others) =
      expressions first ++
        others.flatMap fun other => expressions other.2 := by
  induction others generalizing first with
  | nil => simp [Text.joined]
  | cons other others inductionHypothesis =>
      have here := apart other List.mem_cons_self
      have later := inductionHypothesis other.2 fun next member =>
        apart next (List.mem_cons_of_mem other member)
      have whole :
          first.joined (other :: others) =
            first ++ other.1 :: other.2.joined others := by
        simp [Text.joined]
      rw [whole, expressions_append_cons here, later, List.flatMap_cons]

/-- Behind a barrier a text is scanned as from its beginning, and nothing on
one side of the barrier has an influence on the other. So the expressions in
texts that are joined by barriers are those of each text in turn. -/
theorem occurrences_across_barriers :
    (∀ barrier, Barrier barrier → ∀ first second : Text,
      occurrences (first ++ barrier :: second) =
        occurrences first ++
          (occurrences second).map
            (Occurrence.shift (first ++ [barrier]).byteSize)) ∧
    ∀ (first : Text) (others : List (Char × Text)),
      (∀ other ∈ others, Barrier other.1) →
        expressions (first.joined others) =
          expressions first ++
            others.flatMap fun other => expressions other.2 :=
  ⟨fun _ apart first second => occurrences_append_cons apart first second,
    fun first _ apart => expressions_joined first apart⟩

/-- In `1d6+—3d8` the dash takes three bytes and keeps the `3` from being an
addend. -/
theorem occurrences_across_dash :
    Barrier '—' ∧
      occurrences "1d6+—3d8".toList =
        [⟨⟨.one, ⟨6, by decide⟩, 0, 0⟩, ⟨0, 3⟩⟩,
          ⟨⟨⟨3, by decide⟩, ⟨8, by decide⟩, 0, 0⟩, ⟨7, 10⟩⟩] ∧
      (∀ other ∈ [(' ', "3d".toList), ('x', "6".toList)],
        Barrier other.1) ∧
      expressions (Text.joined "d4".toList
          [(' ', "3d".toList), ('x', "6".toList)]) =
        [⟨.one, ⟨4, by decide⟩, 0, 0⟩] := by
  have dash : Barrier '—' := by decide
  have front :
      occurrences "1d6+".toList =
        [⟨⟨.one, ⟨6, by decide⟩, 0, 0⟩, ⟨0, 3⟩⟩] := by
    decide +kernel
  have behind :
      occurrences "3d8".toList =
        [⟨⟨⟨3, by decide⟩, ⟨8, by decide⟩, 0, 0⟩, ⟨0, 3⟩⟩] := by
    decide +kernel
  have separators :
      ∀ other ∈ [(' ', "3d".toList), ('x', "6".toList)],
        Barrier other.1 := by
    decide
  have whole :=
    occurrences_across_barriers.1 '—' dash "1d6+".toList "3d8".toList
  have expressionsJoined :=
    occurrences_across_barriers.2 "d4".toList _ separators
  rw [front, behind] at whole
  refine ⟨dash, whole, separators, expressionsJoined.trans ?_⟩
  decide +kernel

end DiceNotation
