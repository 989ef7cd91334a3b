import DiceNotation.Proofs.Boundaries
import DiceNotation.Proofs.Composition

/-!
# Gaps between notation

A text may be cut wherever no match is broken: by itself each part has the
matches that it has in the whole text (`Match.searchFrom_append_of_beside`).
The beginnings and ends of matches are such places. So a gap that is left
between pieces of notation has no matches but those dropped there, and no
notation can be found in it (`occurrences_slice_of_mem_gapSpans`).
-/

namespace DiceNotation

theorem Text.isPrefix_of_byteSize_le
    {first second text : Text} (firstFront : first <+: text)
    (secondFront : second <+: text)
    (le : first.byteSize ≤ second.byteSize) : first <+: second := by
  rcases List.prefix_or_prefix_of_prefix firstFront secondFront with
    shorter | ⟨more, longer⟩
  · exact shorter
  · have nothing : more = [] := by
      by_contra nonempty
      have positive := byteSize_pos nonempty
      rw [← longer, byteSize_append] at le
      omega
    rw [nothing, List.append_nil] at longer
    exact ⟨[], (List.append_nil first).trans longer.symm⟩

/-! ## Matches in a part of a text -/

namespace Pattern

variable {front rest found behind : Text}

theorem isSome_match?_dice_append
    (matched : dice.match? front = some (found, behind)) (rest : Text) :
    (dice.match? (front ++ rest)).isSome := by
  obtain ⟨spelling, same, _⟩ := Spelling.exists_of_match? matched
  have isSome := spelling.isSome_match?_append (behind ++ rest)
  rwa [← same, ← List.append_assoc, append_of_match? matched] at isSome

/-- Text behind a match may be cut off. -/
theorem exists_match?_dice_of_append
    (matched : dice.match? (front ++ rest) = some (found, behind))
    (inside : found.byteSize ≤ front.byteSize) :
    ∃ later, dice.match? front = some (found, later) := by
  obtain ⟨spelling, rfl, leads⟩ := Spelling.exists_of_match? matched
  have fits : spelling.text <+: front :=
    Text.isPrefix_of_byteSize_le leads.1 (List.prefix_append front rest)
      inside
  apply Spelling.leads_iff_match?.mp
  refine ⟨fits, ?_⟩
  intro other otherFront
  exact leads.2 other (otherFront.trans (List.prefix_append front rest))

end Pattern

namespace Match

/-- A cut before byte `offset` does not break the match. -/
def Beside (offset : Nat) (found : Match) : Prop :=
  found.span.stop ≤ offset ∨ offset ≤ found.span.start

/-- A match at the front of a text ends before a cut that does not break it,
so it is also the match at the front of what stands before the cut. -/
theorem exists_match?_of_beside
    {start : Nat} {front rest found behind : Text} (nonempty : front ≠ [])
    (beside :
      ∀ other ∈ searchFrom start (front ++ rest),
        other.Beside (start + front.byteSize))
    (matched :
      Pattern.dice.match? (front ++ rest) = some (found, behind)) :
    ∃ later, Pattern.dice.match? front = some (found, later) := by
  have positive := Text.byteSize_pos nonempty
  rw [searchFrom_of_match? start matched] at beside
  apply Pattern.exists_match?_dice_of_append matched
  rcases beside _ List.mem_cons_self with before | after
  · exact Nat.le_of_add_le_add_left before
  · exact absurd after (by simp only [span]; omega)

/-- Text behind such a cut has no part in the match at the front. -/
theorem match?_append_of_beside
    {start : Nat} {front rest : Text} (nonempty : front ≠ [])
    (beside :
      ∀ other ∈ searchFrom start (front ++ rest),
        other.Beside (start + front.byteSize)) :
    Pattern.dice.match? (front ++ rest) =
      (Pattern.dice.match? front).map fun matched =>
        (matched.1, matched.2 ++ rest) := by
  cases whole : Pattern.dice.match? (front ++ rest) with
  | none =>
      cases alone : Pattern.dice.match? front with
      | none => rfl
      | some matched =>
          have present := Pattern.isSome_match?_dice_append alone rest
          rw [whole] at present
          contradiction
  | some matched =>
      obtain ⟨found, behind⟩ := matched
      obtain ⟨later, alone⟩ :=
        exists_match?_of_beside nonempty beside whole
      -- What is behind the match is what is behind it in the part, and more.
      have wholeText := Pattern.append_of_match? whole
      rw [← Pattern.append_of_match? alone, List.append_assoc] at wholeText
      rw [alone, Option.map_some, List.append_cancel_left wholeText]

/-- The matches on both sides of a cut that breaks none of them are those of
the two parts. -/
theorem searchFrom_append_of_beside
    {start : Nat} {front rest : Text}
    (beside :
      ∀ found ∈ searchFrom start (front ++ rest),
        found.Beside (start + front.byteSize)) :
    searchFrom start (front ++ rest) =
      searchFrom start front ++
        searchFrom (start + front.byteSize) rest := by
  induction start, front using searchFrom.induct with
  | case1 start =>
      rw [searchFrom]
      rfl
  | case2 start head others found later matched inductionHypothesis =>
      have whole :=
        match?_append_of_beside (List.cons_ne_nil head others) beside
      rw [matched, Option.map_some] at whole
      have size :
          start + Text.byteSize (head :: others) =
            start + found.byteSize + later.byteSize := by
        rw [← Pattern.append_of_match? matched, Text.byteSize_append,
          Nat.add_assoc]
      rw [searchFrom_of_match? start whole, size] at beside
      rw [searchFrom_of_match? start whole,
        searchFrom_of_match? start matched, size,
        inductionHypothesis fun other member =>
          beside other (List.mem_cons_of_mem _ member)]
      rfl
  | case3 start head others missing inductionHypothesis =>
      have whole :=
        match?_append_of_beside (List.cons_ne_nil head others) beside
      rw [missing, Option.map_none, List.cons_append] at whole
      rw [List.cons_append] at beside ⊢
      rw [searchFrom_cons start whole, Text.byteSize_cons,
        ← Nat.add_assoc] at beside
      rw [searchFrom_cons start whole, searchFrom_cons start missing,
        Text.byteSize_cons, ← Nat.add_assoc, inductionHypothesis beside]

variable {text : Text} {found other : Match}

theorem stop_le_of_mem_all (member : found ∈ all text) :
    found.span.stop ≤ text.byteSize := by
  obtain ⟨before, after, rfl, position⟩ :=
    exists_append_of_mem_searchFrom member
  simp only [span, position, Text.byteSize_append]
  omega

/-- No match is broken where another begins or ends. -/
theorem beside_of_mem_all
    (member : found ∈ all text) (otherMember : other ∈ all text) :
    other.Beside found.span.start ∧ other.Beside found.span.stop := by
  have ordered (matched : Match) :
      matched.span.start ≤ matched.span.stop :=
    Nat.le_add_right _ _
  have foundOrdered := ordered found
  have otherOrdered := ordered other
  by_cases same : found = other
  · subst same
    exact ⟨Or.inr (Nat.le_refl _), Or.inl (Nat.le_refl _)⟩
  · rcases apart_of_mem_all member otherMember same with
      foundFirst | otherFirst
    · exact
        ⟨Or.inr (Nat.le_trans foundOrdered foundFirst),
          Or.inr foundFirst⟩
    · exact
        ⟨Or.inl otherFirst,
          Or.inl (Nat.le_trans otherFirst foundOrdered)⟩

end Match

/-! ## Ends of gaps -/

namespace Text

variable {size cursor : Nat} {spans : List Span} {text : Text} {gap : Span}

/-- A gap reaches from a span, or from the cursor, to a span or to the end of
the text. -/
theorem ends_of_mem_gapSpansFrom
    (member : gap ∈ gapSpansFrom size cursor spans) :
    (gap.start = cursor ∨ ∃ span ∈ spans, gap.start = span.stop) ∧
      (gap.stop = size ∨ ∃ span ∈ spans, gap.stop = span.start) := by
  induction spans generalizing cursor with
  | nil =>
      rw [gapSpansFrom, List.mem_singleton] at member
      rw [member]
      exact ⟨Or.inl rfl, Or.inl rfl⟩
  | cons span spans inductionHypothesis =>
      rw [gapSpansFrom] at member
      rcases List.mem_cons.mp member with same | behind
      · rw [same]
        exact ⟨Or.inl rfl, Or.inr ⟨span, List.mem_cons_self, rfl⟩⟩
      · obtain ⟨start, stop⟩ := inductionHypothesis behind
        constructor
        · rcases start with atSpan | ⟨later, laterMember, atLater⟩
          · exact Or.inr ⟨span, List.mem_cons_self, atSpan⟩
          · exact
              Or.inr
                ⟨later, List.mem_cons_of_mem span laterMember, atLater⟩
        · rcases stop with atEnd | ⟨later, laterMember, atLater⟩
          · exact Or.inl atEnd
          · exact
              Or.inr
                ⟨later, List.mem_cons_of_mem span laterMember, atLater⟩

namespace CutFrom

theorem le_start_of_mem_gapSpansFrom
    (cut : CutFrom cursor spans text)
    (member : gap ∈ gapSpansFrom size cursor spans) :
    cursor ≤ gap.start := by
  induction cut with
  | nil cursor rest =>
      rw [gapSpansFrom, List.mem_singleton] at member
      exact Nat.le_of_eq (congrArg Span.start member).symm
  | cons cursor front body others inductionHypothesis =>
      rw [gapSpansFrom] at member
      rcases List.mem_cons.mp member with same | behind
      · exact Nat.le_of_eq (congrArg Span.start same).symm
      · have later := inductionHypothesis behind
        omega

/-- A gap shares no byte with a span. -/
theorem apart_of_mem_gapSpansFrom
    (cut : CutFrom cursor spans text)
    (member : gap ∈ gapSpansFrom size cursor spans) {span : Span}
    (spanMember : span ∈ spans) :
    span.stop ≤ gap.start ∨ gap.stop ≤ span.start := by
  induction cut with
  | nil => contradiction
  | cons cursor front body others inductionHypothesis =>
      rw [gapSpansFrom] at member
      rcases List.mem_cons.mp member with same | behind
      · rw [same]
        apply Or.inr
        rcases List.mem_cons.mp spanMember with rfl | later
        · exact Nat.le_refl _
        · have start := others.start_le later
          simp only
          omega
      · rcases List.mem_cons.mp spanMember with rfl | later
        · exact Or.inl (others.le_start_of_mem_gapSpansFrom behind)
        · exact inductionHypothesis behind later

end CutFrom

end Text

/-! ## Gaps by themselves -/

namespace Match

variable {before part after : Text}

/-- A part of a text whose ends break no match has, by itself, no other
matches than it has in the text. -/
theorem mem_all_of_mem_searchFrom_part
    (beside :
      ∀ found ∈ all (before ++ (part ++ after)),
        found.Beside before.byteSize ∧
          found.Beside (before.byteSize + part.byteSize))
    {found : Match} (member : found ∈ searchFrom before.byteSize part) :
    found ∈ all (before ++ (part ++ after)) := by
  have split :
      all (before ++ (part ++ after)) =
        searchFrom 0 before ++
          searchFrom before.byteSize (part ++ after) := by
    rw [all, ← Nat.zero_add before.byteSize]
    apply searchFrom_append_of_beside
    intro found member
    rw [Nat.zero_add]
    exact (beside found member).1
  have behind :
      searchFrom before.byteSize (part ++ after) =
        searchFrom before.byteSize part ++
          searchFrom (before.byteSize + part.byteSize) after := by
    apply searchFrom_append_of_beside
    intro found member
    apply (beside found _).2
    rw [split]
    exact List.mem_append_right _ member
  rw [split, behind]
  exact
    List.mem_append_right _ (List.mem_append_left _ member)

end Match

section

variable {text : Text} {gap : Span}

/-- What is found in a text has the span of a match. -/
theorem exists_match_of_mem_spans
    {span : Span} (member : span ∈ (occurrences text).map Occurrence.span) :
    ∃ found ∈ Match.all text, span = found.span := by
  obtain ⟨occurrence, occurrenceMember, rfl⟩ := List.mem_map.mp member
  rw [occurrences_eq] at occurrenceMember
  obtain ⟨found, foundMember, usable⟩ :=
    List.mem_filterMap.mp occurrenceMember
  exact ⟨found, foundMember, Match.span_of_occurrence? usable⟩

/-- The ends of a gap break no match. -/
theorem beside_of_mem_gapSpans
    (member :
      gap ∈ text.gapSpans ((occurrences text).map Occurrence.span))
    {found : Match} (foundMember : found ∈ Match.all text) :
    found.Beside gap.start ∧ found.Beside gap.stop := by
  obtain ⟨start, stop⟩ := Text.ends_of_mem_gapSpansFrom member
  constructor
  · rcases start with atZero | ⟨span, spanMember, atSpan⟩
    · rw [atZero]
      exact Or.inr (Nat.zero_le _)
    · obtain ⟨other, otherMember, rfl⟩ :=
        exists_match_of_mem_spans spanMember
      rw [atSpan]
      exact (Match.beside_of_mem_all otherMember foundMember).2
  · rcases stop with atEnd | ⟨span, spanMember, atSpan⟩
    · rw [atEnd]
      exact Or.inl (Match.stop_le_of_mem_all foundMember)
    · obtain ⟨other, otherMember, rfl⟩ :=
        exists_match_of_mem_spans spanMember
      rw [atSpan]
      exact (Match.beside_of_mem_all otherMember foundMember).1

/-- A gap by itself has no notation in it. -/
theorem occurrences_slice_of_mem_gapSpans
    (member :
      gap ∈ text.gapSpans ((occurrences text).map Occurrence.span)) :
    occurrences (text.slice gap) = [] := by
  have cut := cutFrom_occurrences text
  obtain ⟨before, part, after, rfl, rfl⟩ :=
    Text.fits_iff_exists_append.mp
      (Text.CutFrom.fits_gapSpansFrom [] cut member)
  rw [Text.slice_append]
  have unusable :
      ∀ found ∈ Match.searchFrom before.byteSize part,
        found.occurrence? = none := by
    intro found foundMember
    by_contra usable
    obtain ⟨occurrence, usable⟩ := Option.ne_none_iff_exists'.mp usable
    have inText :=
      Match.mem_all_of_mem_searchFrom_part
        (fun other => beside_of_mem_gapSpans member) foundMember
    have isOccurrence :
        occurrence ∈ occurrences (before ++ (part ++ after)) := by
      rw [occurrences_eq]
      exact List.mem_filterMap.mpr ⟨found, inText, usable⟩
    -- The occurrence lies in the gap, and yet it is apart from all gaps.
    have apart :=
      cut.apart_of_mem_gapSpansFrom member
        (List.mem_map_of_mem isOccurrence)
    have nonempty := Occurrence.start_lt_stop isOccurrence
    obtain ⟨inFront, behind, rfl, position⟩ :=
      Match.exists_append_of_mem_searchFrom foundMember
    rw [Match.span_of_occurrence? usable] at apart nonempty
    simp only [Match.span, position, Text.byteSize_append] at apart nonempty
    omega
  have moved := Match.searchFrom_add before.byteSize 0 part
  rw [Nat.add_zero] at moved
  rw [moved, List.forall_mem_map] at unusable
  rw [occurrences_eq, List.filterMap_eq_nil_iff]
  intro found foundMember
  have shifted := unusable found foundMember
  rw [Match.occurrence?_shift, Option.map_eq_none_iff] at shifted
  exact shifted

end

theorem RollM.text_of_returns_process
    {σ : Type} [Roller σ] {context after : Context σ} {source : Text}
    {processed : Processed}
    (returned :
      Returns (process · source) context (.ok processed, after)) :
    ∃ totals : List Nat,
      totals.length = (occurrences source).length ∧
        processed.text =
          Text.weave
            (source.gaps ((occurrences source).map Occurrence.span))
            (totals.map Text.decimal) := by
  simp only [← map_fst_processDetailed,
    returns_map (steady_processDetailed source)] at returned
  obtain ⟨error | ⟨text, rolls⟩, detailed, same⟩ := returned
  · contradiction
  · cases same
    obtain ⟨rolled, woven⟩ :=
      exists_rollsTo_of_returns_processDetailed detailed
    refine ⟨rolls.map Roll.total, ?_, ?_⟩
    · have lengths := congrArg List.length rolled.map_expression
      rw [List.length_map, expressions, List.length_map] at lengths
      rw [List.length_map, lengths]
    · rw [woven, List.map_map]
      rfl

/-- No notation can be found in what is left between, before and behind the
notation of a text. So nothing of it is in the text that processing copies. -/
theorem occurrences_of_mem_gaps (source : Text) :
    (∀ gap ∈ source.gaps ((occurrences source).map Occurrence.span),
      occurrences gap = []) ∧
    ∀ {σ : Type} [Roller σ] (context after : Context σ)
      (processed : Processed),
        RollM.Returns (RollM.process · source) context
            (.ok processed, after) →
          ∃ totals : List Nat,
            totals.length = (occurrences source).length ∧
              processed.text =
                Text.weave
                  (source.gaps ((occurrences source).map Occurrence.span))
                  (totals.map Text.decimal) := by
  constructor
  · intro gap member
    rw [Text.gaps, ← Text.map_slice_gapSpansFrom] at member
    obtain ⟨span, spanMember, rfl⟩ := List.mem_map.mp member
    exact occurrences_slice_of_mem_gapSpans spanMember
  · intro σ _ context after processed returned
    exact RollM.text_of_returns_process returned

/-- In front of `2d4` a number is too large, and behind it a plus sign and a
threshold have nothing that they could belong to. -/
theorem occurrences_around_sum :
    let source : Text := "1d6+99999999999 2d4+b3 0d6".toList
    let spans := (occurrences source).map Occurrence.span
    let copied : Text := "1d6+99999999999 5+b3 0d6".toList
    "1d6+99999999999 ".toList ∈ source.gaps spans ∧
      "+b3 0d6".toList ∈ source.gaps spans ∧
      occurrences "1d6+99999999999 ".toList = [] ∧
      occurrences "+b3 0d6".toList = [] ∧
      RollM.Returns (RollM.process · source)
        (Context.unlimited (⟨[1, 4], 0⟩ : FaceTape))
        (.ok (.replaced copied), ⟨none, 2, ⟨[], 2⟩⟩) ∧
      ∃ totals : List Nat,
        totals.length = (occurrences source).length ∧
          copied =
            Text.weave (source.gaps spans) (totals.map Text.decimal) := by
  intro source spans copied
  have found :
      occurrences source =
        [⟨⟨⟨2, by decide⟩, ⟨4, by decide⟩, 0, 0⟩, ⟨16, 19⟩⟩] := by
    decide +kernel
  have gaps :
      source.gaps spans =
        ["1d6+99999999999 ".toList, "+b3 0d6".toList] := by
    decide +kernel
  have first : "1d6+99999999999 ".toList ∈ source.gaps spans := by
    rw [gaps]
    exact List.mem_cons_self
  have last : "+b3 0d6".toList ∈ source.gaps spans := by
    rw [gaps]
    exact List.mem_cons_of_mem _ List.mem_cons_self
  have returned :
      RollM.Returns (RollM.process · source)
        (Context.unlimited (⟨[1, 4], 0⟩ : FaceTape))
        (.ok (.replaced copied), ⟨none, 2, ⟨[], 2⟩⟩) := by
    rw [RollM.returns_iff_exists (RollM.steady_process source)]
    refine ⟨1, ?_⟩
    rw [RollM.process_eq, expressions, found]
    rfl
  have empty := (occurrences_of_mem_gaps source).1
  have copies :=
    (occurrences_of_mem_gaps source).2 _ _ (.replaced copied) returned
  exact
    ⟨first, last, empty _ first, empty _ last, returned, copies⟩

end DiceNotation
