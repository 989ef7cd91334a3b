import DiceNotation.Proofs.Search

/-!
# The token scan is a search

Scanning the tokens of a text finds what searching its characters finds. Scan
and search stand at different places: the scan passes whole tokens, keeps the
digit run that it has just passed in mind, and also passes signs without
digits.
-/

namespace DiceNotation

/-! ## Numbers -/

theorem Match.positiveWord?_eq (digits : Text) :
    (Text.word32? digits >>= Positive.ofWord?) =
      if usable : 0 < Text.value digits ∧ Text.value digits < UInt32.size then
        some (Match.positive (Text.value digits) usable)
      else
        none := by
  rw [Text.word32?_eq]
  by_cases small : Text.value digits < UInt32.size
  · rw [if_pos small, Option.bind_eq_bind, Option.bind_some]
    by_cases nonzero : 0 < Text.value digits
    · rw [dif_pos ⟨nonzero, small⟩]
      exact Positive.ofWord?_eq_some_iff.mpr rfl
    · rw [dif_neg fun usable => nonzero usable.1,
        Nat.eq_zero_of_not_pos nonzero]
      exact Positive.ofWord?_eq_none_iff.mpr rfl
  · rw [if_neg small, dif_neg fun usable => small usable.2]
    rfl

theorem Match.ofCandidate?_eq
    {candidate : Candidate} {found : Match}
    (count : (candidate.count.map Text.value).getD 1 = found.count)
    (sides : Text.value candidate.sides = found.sides)
    (addend : Text.value (candidate.addend.getD []) = found.addend)
    (brutal : Text.value (candidate.brutal.getD []) = found.brutal)
    (span : candidate.span = found.span) :
    Occurrence.ofCandidate? candidate = found.occurrence? := by
  have countWord :
      candidate.count? =
        if usable : 0 < found.count ∧ found.count < UInt32.size then
          some (Match.positive found.count usable)
        else
          none := by
    rw [Candidate.count?]
    cases written : candidate.count with
    | none =>
        rw [written, Option.map_none, Option.getD_none] at count
        simp only [← count]
        rfl
    | some digits =>
        rw [written, Option.map_some, Option.getD_some] at count
        simp only [← count]
        exact Match.positiveWord?_eq digits
  rw [Occurrence.ofCandidate?, Candidate.expression?, countWord,
    Match.positiveWord?_eq, Text.word32?_eq, Text.word32?_eq]
  simp only [sides, addend, brutal, span, Match.occurrence?,
    Match.Usable]
  by_cases countUsable : 0 < found.count ∧ found.count < UInt32.size
  · by_cases sidesUsable : 0 < found.sides ∧ found.sides < UInt32.size
    · by_cases addendUsable : found.addend < UInt32.size
      · by_cases brutalUsable : found.brutal < UInt32.size
        · simp [countUsable, sidesUsable, addendUsable, brutalUsable]
        · simp [countUsable, sidesUsable, addendUsable, brutalUsable]
      · simp [countUsable, sidesUsable, addendUsable]
    · simp [countUsable, sidesUsable]
  · simp [countUsable]

/-! ## Tokens taken off the front of a text -/

namespace Token

theorem lexFrom_digits
    {digits rest : Text} (start : Nat) (allDigits : digits.AllDigits)
    (nonempty : digits ≠ []) (ends : Kind.digits.EndsBefore rest) :
    lexFrom start (digits ++ rest) =
      ⟨.digits, start, digits⟩ ::
        lexFrom (start + digits.byteSize) rest := by
  have uniform := Text.allDigits_iff_ofChar.mp allDigits
  exact lexFrom_run start (Or.inl rfl) uniform nonempty ends

theorem take_lexFrom_run
    {digits rest : Text} (start : Nat) (allDigits : digits.AllDigits)
    (nonempty : digits ≠ []) (ends : Kind.digits.EndsBefore rest) :
    take .digits (lexFrom start (digits ++ rest)) =
      (some ⟨.digits, start, digits⟩,
        lexFrom (start + digits.byteSize) rest) := by
  rw [lexFrom_digits start allDigits nonempty ends]
  rfl

theorem take_lexFrom_of_endsBefore
    {kind : Kind} {text : Text} (start : Nat)
    (ends : kind.EndsBefore text) :
    take kind (lexFrom start text) = (none, lexFrom start text) := by
  have heads := head?_lexFrom_kind start text
  cases tokens : lexFrom start text with
  | nil => rfl
  | cons first others =>
      rw [tokens] at heads
      rw [take, if_neg]
      intro same
      obtain ⟨letter, member, letterKind⟩ :=
        Option.map_eq_some_iff.mp heads.symm
      exact ends letter member (letterKind.trans same)

section

variable {mark : Kind} {sign : Char}

theorem takeMarked_present
    {digits rest : Text} (start : Nat)
    (written : mark.sign? = some sign) (allDigits : digits.AllDigits)
    (nonempty : digits ≠ []) (ends : Kind.digits.EndsBefore rest) :
    takeMarked mark (lexFrom start (sign :: (digits ++ rest))) =
      (some ⟨mark, start, [sign]⟩,
        some ⟨.digits, start + sign.utf8Size, digits⟩,
        lexFrom (start + Text.byteSize (sign :: digits)) rest) := by
  rw [lexFrom_sign start _ written, takeMarked, take, if_pos rfl]
  simp only [take_lexFrom_run _ allDigits nonempty ends,
    Text.byteSize_cons, Nat.add_assoc]

theorem takeMarked_dangling
    {rest : Text} (start : Nat) (written : mark.sign? = some sign)
    (ends : Kind.digits.EndsBefore rest) :
    takeMarked mark (lexFrom start (sign :: rest)) =
      (some ⟨mark, start, [sign]⟩, none,
        lexFrom (start + sign.utf8Size) rest) := by
  rw [lexFrom_sign start _ written, takeMarked, take, if_pos rfl]
  simp only [take_lexFrom_of_endsBefore _ ends]

theorem takeMarked_absent
    {text : Text} (start : Nat) (written : mark.sign? = some sign)
    (different : text.head? ≠ some sign) :
    takeMarked mark (lexFrom start text) =
      (none, none, lexFrom start text) := by
  have ends : mark.EndsBefore text := by
    intro letter member same
    rw [Kind.ofChar_eq_iff_of_sign? written] at same
    exact different (same ▸ member)
  rw [takeMarked, take_lexFrom_of_endsBefore start ends]

end

end Token

/-! ## The scan -/

namespace Occurrence

theorem scan_digits
    {head : Token} (pending : Option Token) (rest : List Token)
    (kind : head.kind = .digits) :
    scan pending (head :: rest) = scan (some head) rest := by
  rw [scan, kind]

theorem scan_die
    {head : Token} (pending : Option Token) (rest : List Token)
    (kind : head.kind = .die) :
    scan pending (head :: rest) =
      (complete (pending.getD head).start pending rest).1.toList ++
        scan none
          (complete (pending.getD head).start pending rest).2 := by
  rw [scan, kind]

theorem scan_other
    {head : Token} (pending : Option Token) (rest : List Token)
    (noDigits : head.kind ≠ .digits) (noDie : head.kind ≠ .die) :
    scan pending (head :: rest) = scan none rest := by
  rw [scan]
  cases kind : head.kind with
  | digits => contradiction
  | die => contradiction
  | plus => rfl
  | brutal => rfl
  | prose => rfl

theorem scan_lexFrom_sign
    {mark : Kind} {sign : Char} (pending : Option Token) (start : Nat)
    (rest : Text) (written : mark.sign? = some sign)
    (noDie : mark ≠ .die) :
    scan pending (Token.lexFrom start (sign :: rest)) =
      scan none (Token.lexFrom (start + sign.utf8Size) rest) := by
  rw [Token.lexFrom_sign start rest written]
  apply scan_other
  · intro same
    subst same
    contradiction
  · exact noDie

theorem takeMarked_brutal
    {text rest : Text} {brutal : Option Text} (start : Nat)
    (found : SuffixAt 'b' text brutal rest) :
    ∃ run tokens,
      (Token.takeMarked .brutal (Token.lexFrom start text)).2 =
          (run, tokens) ∧
        run.map Token.text = brutal ∧
        (∀ last : Token, last.stop = start →
          (run.getD last).stop =
            start + (suffixText 'b' brutal).byteSize) ∧
        scan none tokens =
          scan none
            (Token.lexFrom
              (start + (suffixText 'b' brutal).byteSize) rest) := by
  cases found with
  | present allDigits nonempty ends =>
      rw [Token.takeMarked_present start rfl allDigits nonempty ends]
      refine ⟨_, _, rfl, rfl, ?_, rfl⟩
      intro last _
      simp [Token.stop, suffixText, Nat.add_assoc]
  | dangling ends =>
      rw [Token.takeMarked_dangling start rfl ends]
      refine ⟨_, _, rfl, rfl, ?_, ?_⟩
      · exact fun last stop => stop
      · have passed : Kind.sign? .brutal = some 'b' := rfl
        exact (scan_lexFrom_sign none start _ passed (by decide)).symm
  | absent different =>
      rw [Token.takeMarked_absent start rfl different]
      exact ⟨_, _, rfl, rfl, fun last stop => stop, rfl⟩

/-- What is read behind the sides is what the pattern takes there, apart from
a sign without digits, at which nothing can be found. -/
theorem takeSuffixes_lexFrom
    {text afterAddend rest : Text} {addend brutal : Option Text}
    (start : Nat) (addendFound : SuffixAt '+' text addend afterAddend)
    (brutalFound : SuffixAt 'b' afterAddend brutal rest) :
    ∃ addendRun brutalRun tokens,
      takeSuffixes (Token.lexFrom start text) =
          (addendRun, brutalRun, tokens) ∧
        addendRun.map Token.text = addend ∧
        brutalRun.map Token.text = brutal ∧
        (∀ sides : Token, sides.stop = start →
          (brutalRun.getD (addendRun.getD sides)).stop =
            start + (suffixText '+' addend).byteSize +
              (suffixText 'b' brutal).byteSize) ∧
        scan none tokens =
          scan none
            (Token.lexFrom
              (start + (suffixText '+' addend).byteSize +
                (suffixText 'b' brutal).byteSize) rest) := by
  cases addendFound with
  | present allDigits nonempty ends =>
      obtain ⟨run, tokens, taken, written, stops, scanned⟩ :=
        takeMarked_brutal
          (start + (suffixText '+' (some _)).byteSize) brutalFound
      rw [takeSuffixes,
        Token.takeMarked_present start rfl allDigits nonempty ends]
      refine ⟨some _, run, tokens, congrArg (Prod.mk _) taken, ?_, written,
        ?_, scanned⟩
      · rfl
      · intro sides _
        apply stops
        simp [Token.stop, suffixText, Nat.add_assoc]
  | dangling ends =>
      rw [takeSuffixes, Token.takeMarked_dangling start rfl ends]
      -- The text still begins with `+`, so no `b` can be read there.
      cases brutalFound with
      | absent different =>
          refine ⟨none, none, _, rfl, rfl, rfl, ?_, ?_⟩
          · exact fun sides stop => stop
          · have passed : Kind.sign? .plus = some '+' := rfl
            exact (scan_lexFrom_sign none start _ passed (by decide)).symm
  | absent different =>
      obtain ⟨run, tokens, taken, written, stops, scanned⟩ :=
        takeMarked_brutal start brutalFound
      rw [takeSuffixes, Token.takeMarked_absent start rfl different]
      refine ⟨none, run, tokens, ?_, rfl, written, ?_, scanned⟩
      · exact congrArg (Prod.mk _) taken
      · exact fun sides stop => stops sides stop

/-- The token of a digit run that begins at byte `start`, if there is one. -/
def pendingRun (start : Nat) (digits : Text) : Option Token :=
  if digits = [] then none else some ⟨.digits, start, digits⟩

theorem scan_digits_append
    {digits rest : Text} (start : Nat) (allDigits : digits.AllDigits)
    (ends : Kind.digits.EndsBefore rest) :
    scan none (Token.lexFrom start (digits ++ rest)) =
      scan (pendingRun start digits)
        (Token.lexFrom (start + digits.byteSize) rest) := by
  rw [pendingRun]
  by_cases empty : digits = []
  · subst empty
    rfl
  · rw [if_neg empty, Token.lexFrom_digits start allDigits empty ends]
    exact scan_digits none _ rfl

theorem start_getD_pendingRun (start : Nat) (digits : Text) :
    ((pendingRun start digits).getD
      ⟨.die, start + digits.byteSize, ['d']⟩).start = start := by
  rw [pendingRun]
  by_cases empty : digits = []
  · simp [empty]
  · simp [empty]

theorem complete_of_endsBefore
    {text : Text} (start position : Nat) (count : Option Token)
    (ends : Kind.digits.EndsBefore text) :
    complete start count (Token.lexFrom position text) =
      (none, Token.lexFrom position text) := by
  rw [complete, Token.take_lexFrom_of_endsBefore position ends]

/-- Completed notation is the match of the pattern, and the scan goes on as if
from the end of the match. -/
theorem complete_spelling
    (spelling : Spelling) {afterSides afterAddend rest : Text}
    (start : Nat) (ends : Kind.digits.EndsBefore afterSides)
    (addendFound : SuffixAt '+' afterSides spelling.addend afterAddend)
    (brutalFound : SuffixAt 'b' afterAddend spelling.brutal rest) :
    ∃ tokens,
      complete start (pendingRun start spelling.count)
          (Token.lexFrom (start + spelling.count.byteSize + 'd'.utf8Size)
            (spelling.sides ++ afterSides)) =
          (Match.occurrence? ⟨start, spelling.text⟩, tokens) ∧
        scan none tokens =
          scan none
            (Token.lexFrom (start + spelling.text.byteSize) rest) := by
  obtain ⟨addendRun, brutalRun, tokens, taken, addendText, brutalText,
      stops, scanned⟩ :=
    takeSuffixes_lexFrom
      (start + spelling.count.byteSize + 'd'.utf8Size +
        spelling.sides.byteSize)
      addendFound brutalFound
  have size :
      start + spelling.count.byteSize + 'd'.utf8Size +
          spelling.sides.byteSize +
          (suffixText '+' spelling.addend).byteSize +
          (suffixText 'b' spelling.brutal).byteSize =
        start + spelling.text.byteSize := by
    simp only [Spelling.text, Spelling.suffixes, Text.byteSize_append,
      Text.byteSize_cons]
    omega
  rw [size] at stops scanned
  refine ⟨tokens, ?_, scanned⟩
  rw [complete,
    Token.take_lexFrom_run _ spelling.sides_digits.1
      spelling.sides_digits.2 ends]
  simp only [taken, addendText, brutalText]
  apply congrArg (·, tokens)
  apply Match.ofCandidate?_eq
  · rw [Match.count_spelling, pendingRun]
    by_cases empty : spelling.count = []
    · simp [empty]
    · simp [empty]
  · rw [Match.sides_spelling]
  · rw [Match.addend_spelling]
  · rw [Match.brutal_spelling]
  · rw [stops _ rfl]
    rfl

/-- A text that begins neither with a digit nor with `d` is scanned as if from
a later place, and no character before that place is a digit or a `d`. -/
theorem exists_passed
    {head : Char} (start : Nat) (later : Text)
    (noDigits : Kind.ofChar head ≠ .digits)
    (noDie : Kind.ofChar head ≠ .die) :
    ∃ front rest : Text,
      head :: later = front ++ rest ∧ front ≠ [] ∧
        (∀ letter ∈ front, Kind.ofChar letter = Kind.ofChar head) ∧
        ∀ pending,
          scan pending (Token.lexFrom start (head :: later)) =
            scan none (Token.lexFrom (start + front.byteSize) rest) := by
  by_cases run : (Kind.ofChar head).IsRun
  · obtain ⟨front, rest, whole, uniform, ends⟩ :=
      Kind.exists_run_append (Kind.ofChar head) (head :: later)
    have nonempty : front ≠ [] := by
      intro empty
      rw [empty, List.nil_append] at whole
      exact ends head (whole ▸ rfl) rfl
    refine ⟨front, rest, whole, nonempty, uniform, ?_⟩
    intro pending
    rw [whole, Token.lexFrom_run start run uniform nonempty ends]
    exact scan_other pending _ noDigits noDie
  · refine ⟨[head], later, rfl, List.cons_ne_nil head [], ?_, ?_⟩
    · intro letter member
      rw [List.mem_singleton.mp member]
    · intro pending
      rw [Token.lexFrom_single start fun known => absurd known run]
      exact scan_other pending _ noDigits noDie

/-- Scan and search of a text both go on as from the beginning of a shorter
text, and have found the same before that. -/
def StepsAlike (start : Nat) (text : Text) : Prop :=
  ∃ found position rest,
    rest.length < text.length ∧
      scan none (Token.lexFrom start text) =
        Option.toList found ++ scan none (Token.lexFrom position rest) ∧
      (Match.searchFrom start text).filterMap Match.occurrence? =
        Option.toList found ++
          (Match.searchFrom position rest).filterMap Match.occurrence?

section Steps

variable {digits : Text} (start : Nat) (allDigits : digits.AllDigits)
include allDigits

theorem stepsAlike_digits (nonempty : digits ≠ []) :
    StepsAlike start digits := by
  have ends : Kind.digits.EndsBefore [] := by simp [Kind.EndsBefore]
  have scanned := scan_digits_append start allDigits ends
  have searched :=
    Match.searchFrom_digits_append start allDigits ends rfl
  rw [List.append_nil] at scanned searched
  refine ⟨none, start + digits.byteSize, [], ?_, ?_, ?_⟩
  · exact List.length_pos_iff.mpr nonempty
  · rw [scanned, Token.lexFrom, scan, scan]
    rfl
  · rw [searched]
    rfl

/-- A `d` behind which there is no number. -/
theorem stepsAlike_die_of_endsBefore
    {later : Text} (ends : Kind.digits.EndsBefore later) :
    StepsAlike start (digits ++ 'd' :: later) := by
  have written : Kind.sign? .die = some 'd' := rfl
  have digitsEnd := Text.digits_endsBefore_die later
  have missing := Pattern.match?_dice_die_of_endsBefore ends
  refine
    ⟨none, start + digits.byteSize + 'd'.utf8Size, later, ?_, ?_, ?_⟩
  · rw [List.length_append, List.length_cons]
    omega
  · rw [scan_digits_append start allDigits digitsEnd,
      Token.lexFrom_sign _ _ written, scan_die _ _ rfl,
      complete_of_endsBefore _ _ _ ends]
  · rw [Match.searchFrom_digits_append start allDigits digitsEnd missing,
      Match.searchFrom_cons _ missing]
    rfl

/-- A `d` behind which there is a number. -/
theorem stepsAlike_die
    {sides afterSides : Text} (sidesDigits : sides.AllDigits)
    (nonempty : sides ≠ []) (sidesEnd : Kind.digits.EndsBefore afterSides) :
    StepsAlike start (digits ++ 'd' :: (sides ++ afterSides)) := by
  have written : Kind.sign? .die = some 'd' := rfl
  have digitsEnd := Text.digits_endsBefore_die (sides ++ afterSides)
  obtain ⟨spelling, afterAddend, rest, rfl, rfl, addendFound,
      brutalFound⟩ :=
    Spelling.exists_of allDigits sidesDigits nonempty afterSides
  have matched :=
    Pattern.match?_dice_spelling spelling sidesEnd addendFound brutalFound
  obtain ⟨tokens, completed, scanned⟩ :=
    complete_spelling spelling start sidesEnd addendFound brutalFound
  refine
    ⟨Match.occurrence? ⟨start, spelling.text⟩,
      start + spelling.text.byteSize, rest,
      Pattern.length_lt_of_match?_dice matched, ?_, ?_⟩
  · rw [scan_digits_append start allDigits digitsEnd,
      Token.lexFrom_sign _ _ written, scan_die _ _ rfl,
      start_getD_pendingRun, completed, scanned]
  · rw [Match.searchFrom_of_match? start matched, List.filterMap_cons]
    cases Match.occurrence? ⟨start, spelling.text⟩ with
    | none => rfl
    | some => rfl

theorem stepsAlike_other
    {head : Char} {later : Text} (noDigits : Kind.ofChar head ≠ .digits)
    (noDie : Kind.ofChar head ≠ .die) :
    StepsAlike start (digits ++ head :: later) := by
  have ends : Kind.digits.EndsBefore (head :: later) := by
    intro letter member
    cases member
    exact noDigits
  obtain ⟨front, rest, whole, nonempty, uniform, passed⟩ :=
    exists_passed (start + digits.byteSize) later noDigits noDie
  have missing :
      ∀ {tail : Text}, tail <:+ front → tail ≠ [] →
        Pattern.dice.match? (tail ++ rest) = none := by
    intro tail ending tailNonempty
    obtain ⟨first, others, equality⟩ :=
      List.exists_cons_of_ne_nil tailNonempty
    subst equality
    have firstKind := uniform first (ending.subset List.mem_cons_self)
    apply Pattern.match?_dice_of_ne
    · intro letter member
      cases member
      exact firstKind ▸ noDigits
    · intro same
      cases same
      exact noDie firstKind.symm
  have missingHere := missing List.suffix_rfl nonempty
  rw [← whole] at missingHere
  refine
    ⟨none, start + digits.byteSize + front.byteSize, rest, ?_, ?_, ?_⟩
  · have positive := List.length_pos_iff.mpr nonempty
    rw [whole, List.length_append, List.length_append]
    omega
  · rw [scan_digits_append start allDigits ends, passed]
    rfl
  · rw [Match.searchFrom_digits_append start allDigits ends missingHere,
      whole, Match.searchFrom_append _ missing]
    rfl

end Steps

theorem stepsAlike
    (start : Nat) {text : Text} (nonempty : text ≠ []) :
    StepsAlike start text := by
  obtain ⟨digits, behind, whole, allDigits, ends⟩ :=
    Text.exists_digits_append text
  subst whole
  cases behind with
  | nil =>
      rw [List.append_nil] at nonempty ⊢
      exact stepsAlike_digits start allDigits nonempty
  | cons head later =>
      by_cases die : head = 'd'
      · subst die
        obtain ⟨sides, afterSides, whole, sidesDigits, sidesEnd⟩ :=
          Text.exists_digits_append later
        subst whole
        by_cases empty : sides = []
        · subst empty
          exact stepsAlike_die_of_endsBefore start allDigits sidesEnd
        · exact stepsAlike_die start allDigits sidesDigits empty sidesEnd
      · have noDie : Kind.ofChar head ≠ .die := fun same =>
          die (Kind.ofChar_eq_die_iff.mp same)
        exact stepsAlike_other start allDigits (ends head rfl) noDie

/-- The scan of a text finds the usable matches of the search. -/
theorem scan_lexFrom (start : Nat) (text : Text) :
    scan none (Token.lexFrom start text) =
      (Match.searchFrom start text).filterMap Match.occurrence? := by
  -- A step passes any number of characters, so the induction is on lengths.
  induction size : text.length using Nat.strongRecOn
    generalizing start text with
  | ind size inductionHypothesis =>
      by_cases empty : text = []
      · rw [empty, Token.lexFrom, scan, Match.searchFrom]
        rfl
      · obtain ⟨found, position, rest, shorter, scanned, searched⟩ :=
          stepsAlike start empty
        rw [scanned, searched,
          inductionHypothesis rest.length (size ▸ shorter) position rest
            rfl]

end Occurrence

theorem occurrences_eq (text : Text) :
    occurrences text = (Match.all text).filterMap Match.occurrence? :=
  Occurrence.scan_lexFrom 0 text

/-- The spans of what is found are cut out of the text. -/
theorem cutFrom_occurrences (text : Text) :
    Text.CutFrom 0 ((occurrences text).map Occurrence.span) text := by
  rw [occurrences_eq]
  exact
    (Match.cutFrom_searchFrom 0 text).sublist
      (Match.map_span_sublist (Match.all text))

/-- Dice notation is found in a text exactly where a search for the pattern
`[0-9]*d[0-9]+(\+[0-9]+)?(b[0-9]+)?` matches with numbers that can be used. A
match whose numbers cannot be used shares no byte with what is found. -/
theorem occurrences_eq_filterMap_all (text : Text) :
    occurrences text = (Match.all text).filterMap Match.occurrence? ∧
      (∀ found ∈ Match.all text, text.slice found.span = found.text) ∧
      ∀ dropped ∈ Match.all text, ¬ dropped.Usable →
        ∀ occurrence ∈ occurrences text,
          occurrence.span.stop ≤ dropped.span.start ∨
            dropped.span.stop ≤ occurrence.span.start := by
  refine ⟨occurrences_eq text, ?_, ?_⟩
  · exact fun found member => Match.slice_of_mem_all member
  · intro dropped droppedMember unusable occurrence member
    rw [occurrences_eq] at member
    obtain ⟨found, foundMember, usable⟩ := List.mem_filterMap.mp member
    have different : found ≠ dropped := by
      intro same
      rw [same, Match.occurrence?, dif_neg unusable] at usable
      contradiction
    rw [Match.span_of_occurrence? usable]
    exact Match.apart_of_mem_all foundMember droppedMember different

/-- In `0d6 d8` the first match is dropped and the second is found. -/
theorem apart_of_zero_count :
    (⟨0, "0d6".toList⟩ : Match) ∈ Match.all "0d6 d8".toList ∧
      ¬ (⟨0, "0d6".toList⟩ : Match).Usable ∧
      ∃ occurrence ∈ occurrences "0d6 d8".toList,
        occurrence.span = ⟨4, 6⟩ ∧
          (occurrence.span.stop ≤ 0 ∨ 3 ≤ occurrence.span.start) := by
  have member :
      (⟨0, "0d6".toList⟩ : Match) ∈ Match.all "0d6 d8".toList := by
    decide +kernel
  have unusable : ¬ (⟨0, "0d6".toList⟩ : Match).Usable := by
    decide +kernel
  have found :
      (⟨⟨.one, ⟨8, by decide⟩, 0, 0⟩, ⟨4, 6⟩⟩ : Occurrence) ∈
        occurrences "0d6 d8".toList := by
    decide +kernel
  have apart :=
    (occurrences_eq_filterMap_all "0d6 d8".toList).2.2
      _ member unusable _ found
  exact ⟨member, unusable, _, found, rfl, apart⟩

end DiceNotation
