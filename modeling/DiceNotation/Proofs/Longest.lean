import DiceNotation.Proofs.Spelling

/-!
# The longest notation at the front of a text

Each part of the dice pattern takes all that it can, and so does the pattern:
what it matches at the front of a text is the longest front that is notation
(`leads_iff_match?`).
-/

namespace DiceNotation

/-! ## Fronts of digit runs -/

namespace Text

theorem AllDigits.eq_nil_of_endsBefore
    {digits rest : Text} (allDigits : digits.AllDigits)
    (ends : Kind.digits.EndsBefore (digits ++ rest)) : digits = [] := by
  cases digits with
  | nil => rfl
  | cons digit others =>
      have digitKind :=
        Kind.ofChar_eq_digits_iff.mpr (allDigits digit List.mem_cons_self)
      exact absurd digitKind (ends digit rfl)

/-- Digits at the front of a text are a front of its whole digit run. -/
theorem AllDigits.exists_more
    {run later digits rest : Text} (runDigits : run.AllDigits)
    (allDigits : digits.AllDigits) (ends : Kind.digits.EndsBefore rest)
    (whole : run ++ later = digits ++ rest) :
    ∃ more : Text,
      digits = run ++ more ∧ later = more ++ rest ∧ more.AllDigits := by
  rcases List.append_eq_append_iff.mp whole with
    ⟨more, longer, behind⟩ | ⟨beyond, shorter, behind⟩
  · refine ⟨more, longer, behind, ?_⟩
    intro letter member
    exact
      allDigits letter (longer ▸ List.mem_append_right run member)
  · have beyondDigits : AllDigits beyond := fun letter member =>
      runDigits letter (shorter ▸ List.mem_append_right digits member)
    have nothing := beyondDigits.eq_nil_of_endsBefore (behind ▸ ends)
    subst nothing
    refine ⟨[], ?_, ?_, allDigits_nil⟩
    · rw [List.append_nil, shorter, List.append_nil]
    · exact behind.symm

/-- A text that does not begin with a digit cannot be put in front of one that
does. -/
theorem eq_nil_or_eq_nil_of_endsBefore
    {front later more rest : Text} (ends : Kind.digits.EndsBefore front)
    (allDigits : more.AllDigits) (whole : front ++ later = more ++ rest) :
    more = [] ∨ front = [] := by
  cases front with
  | nil => exact Or.inr rfl
  | cons head others =>
      have endsWhole : Kind.digits.EndsBefore (more ++ rest) := by
        rw [← whole]
        exact ends
      exact Or.inl (allDigits.eq_nil_of_endsBefore endsWhole)

theorem AllDigits.eq_of_append_die
    {first second behindFirst behindSecond : Text}
    (firstDigits : first.AllDigits) (secondDigits : second.AllDigits)
    (whole : first ++ 'd' :: behindFirst = second ++ 'd' :: behindSecond) :
    first = second ∧ behindFirst = behindSecond := by
  have runs := congrArg (List.takeWhile Char.isDigit) whole
  rw [takeWhile_isDigit firstDigits (digits_endsBefore_die _),
    takeWhile_isDigit secondDigits (digits_endsBefore_die _)] at runs
  subst runs
  have behind := List.append_cancel_left whole
  injection behind with _ same
  exact ⟨rfl, same⟩

end Text

namespace SuffixAt

variable {sign : Char} {text rest later : Text} {digits : Option Text}

theorem eq_absent
    {other : Char} {behind : Text} (different : other ≠ sign)
    (found : SuffixAt sign (other :: behind) digits rest) :
    digits = none ∧ rest = other :: behind := by
  cases found with
  | present => contradiction
  | dangling => contradiction
  | absent => exact ⟨rfl, rfl⟩

/-- Where a sign has digits behind it, the suffix takes all of them. -/
theorem exists_more
    {run : Text} (runDigits : run.AllDigits) (nonempty : run ≠ [])
    (found : SuffixAt sign (sign :: (run ++ later)) digits rest) :
    ∃ more : Text,
      digits = some (run ++ more) ∧ later = more ++ rest ∧
        more.AllDigits := by
  generalize signed : sign :: (run ++ later) = text at found
  cases found with
  | present allDigits _ ends =>
      injection signed with _ whole
      obtain ⟨more, rfl, behind, moreDigits⟩ :=
        runDigits.exists_more allDigits ends whole
      exact ⟨more, rfl, behind, moreDigits⟩
  | dangling ends =>
      injection signed with _ whole
      exact
        absurd (runDigits.eq_nil_of_endsBefore (whole ▸ ends)) nonempty
  | absent different =>
      rw [← signed] at different
      contradiction

theorem byteSize_le
    {other : Option Text}
    (otherDigits : ∀ {run}, other = some run → run.AllDigits ∧ run ≠ [])
    (found : SuffixAt sign text digits rest)
    (whole : suffixText sign other ++ later = text) :
    (suffixText sign other).byteSize ≤
      (suffixText sign digits).byteSize := by
  cases other with
  | none => exact Nat.zero_le _
  | some run =>
      obtain ⟨runDigits, nonempty⟩ := otherDigits rfl
      rw [suffixText, List.cons_append] at whole
      subst whole
      obtain ⟨more, rfl, _, _⟩ := exists_more runDigits nonempty found
      simp only [suffixText, Text.byteSize_cons, Text.byteSize_append]
      omega

end SuffixAt

namespace Spelling

variable {afterSides afterAddend rest later : Text}

/-- The spelling is the longest notation at the front of the text. -/
def Leads (spelling : Spelling) (text : Text) : Prop :=
  spelling.text <+: text ∧
    ∀ other : Spelling, other.text <+: text →
      other.text.byteSize ≤ spelling.text.byteSize

theorem byteSize_suffixes_le
    (spelling other : Spelling)
    (addendFound : SuffixAt '+' afterSides spelling.addend afterAddend)
    (brutalFound : SuffixAt 'b' afterAddend spelling.brutal rest)
    (whole : other.suffixes ++ later = afterSides) :
    other.suffixes.byteSize ≤ spelling.suffixes.byteSize := by
  subst whole
  simp only [suffixes, Text.byteSize_append]
  cases otherAddend : other.addend with
  | none =>
      cases otherBrutal : other.brutal with
      | none => exact Nat.zero_le _
      | some run =>
          -- The suffixes begin with `b`, so nothing is taken for the addend.
          simp only [suffixes, otherAddend, otherBrutal, suffixText,
            List.nil_append, List.cons_append] at addendFound
          obtain ⟨_, rfl⟩ := addendFound.eq_absent (by decide)
          have written :
              suffixText 'b' other.brutal ++ later =
                'b' :: (run ++ later) := by
            rw [otherBrutal]
            rfl
          have taken :=
            brutalFound.byteSize_le other.brutal_digits written
          rw [otherBrutal] at taken
          simp only [suffixText, Text.byteSize_nil] at taken ⊢
          omega
  | some run =>
      obtain ⟨runDigits, nonempty⟩ := other.addend_digits otherAddend
      simp only [suffixes, otherAddend, suffixText, List.cons_append,
        List.append_assoc] at addendFound
      obtain ⟨more, taken, behind, moreDigits⟩ :=
        addendFound.exists_more runDigits nonempty
      have ends :=
        digits_endsBefore_suffixText 'b' (by decide) other.brutal
      rw [taken]
      rcases Text.eq_nil_or_eq_nil_of_endsBefore ends moreDigits behind with
        nothing | noBrutal
      · subst nothing
        have brutalTaken :=
          brutalFound.byteSize_le other.brutal_digits behind
        simp only [List.append_nil]
        omega
      · rw [noBrutal]
        simp only [suffixText, Text.byteSize_cons, Text.byteSize_append,
          Text.byteSize_nil]
        omega

/-- No notation at the front of a text is longer than what is taken when every
part takes all that it can. -/
theorem leads_of_suffixAt
    (spelling : Spelling) (ends : Kind.digits.EndsBefore afterSides)
    (addendFound : SuffixAt '+' afterSides spelling.addend afterAddend)
    (brutalFound : SuffixAt 'b' afterAddend spelling.brutal rest) :
    spelling.Leads
      (spelling.count ++ 'd' :: (spelling.sides ++ afterSides)) := by
  constructor
  · have matched :=
      Pattern.match?_dice_spelling spelling ends addendFound brutalFound
    exact ⟨rest, Pattern.append_of_match? matched⟩
  · intro other front
    obtain ⟨later, whole⟩ := front
    simp only [text, List.append_assoc, List.cons_append] at whole
    obtain ⟨counts, behindDie⟩ :=
      other.count_digits.eq_of_append_die spelling.count_digits whole
    obtain ⟨more, longer, behind, moreDigits⟩ :=
      other.sides_digits.1.exists_more spelling.sides_digits.1 ends
        behindDie
    have sizes :
        other.sides.byteSize + other.suffixes.byteSize ≤
          spelling.sides.byteSize + spelling.suffixes.byteSize := by
      rw [longer, Text.byteSize_append]
      rcases Text.eq_nil_or_eq_nil_of_endsBefore
          other.digits_endsBefore_suffixes moreDigits behind with
        nothing | noSuffixes
      · subst nothing
        have suffixes :=
          byteSize_suffixes_le spelling other addendFound brutalFound
            behind
        omega
      · rw [noSuffixes, Text.byteSize_nil]
        omega
    simp only [text, Text.byteSize_append, Text.byteSize_cons, counts]
    omega

/-- What the dice pattern matches is notation, and each of its parts takes all
that it can. -/
theorem exists_of_match?
    {source front : Text}
    (found : Pattern.dice.match? source = some (front, rest)) :
    ∃ spelling : Spelling,
      front = spelling.text ∧ spelling.Leads source := by
  obtain ⟨digits, behind, rfl, allDigits, ends⟩ :=
    Text.exists_digits_append source
  cases behind with
  | nil =>
      rw [Pattern.match?_dice_append allDigits ends] at found
      contradiction
  | cons head tail =>
      by_cases die : head = 'd'
      · subst die
        obtain ⟨sides, afterSides, rfl, sidesDigits, sidesEnd⟩ :=
          Text.exists_digits_append tail
        by_cases empty : sides = []
        · subst empty
          rw [Pattern.match?_dice_append allDigits ends, List.nil_append,
            Pattern.match?_dice_die_of_endsBefore sidesEnd] at found
          contradiction
        · obtain ⟨spelling, afterAddend, behind, rfl, rfl, addendFound,
              brutalFound⟩ :=
            exists_of allDigits sidesDigits empty afterSides
          have matched :=
            Pattern.match?_dice_spelling spelling sidesEnd addendFound
              brutalFound
          rw [matched] at found
          cases found
          exact
            ⟨spelling, rfl,
              leads_of_suffixAt spelling sidesEnd addendFound
                brutalFound⟩
      · have different : (head :: tail).head? ≠ some 'd' := by
          simpa using die
        rw [Pattern.match?_dice_append allDigits ends,
          Pattern.match?_dice_of_ne ends different] at found
        contradiction

/-- The dice pattern matches wherever there is notation. -/
theorem isSome_match?_append (spelling : Spelling) (later : Text) :
    (Pattern.dice.match? (spelling.text ++ later)).isSome := by
  obtain ⟨sides, afterSides, whole, sidesDigits, sidesEnd⟩ :=
    Text.exists_digits_append
      (spelling.sides ++ (spelling.suffixes ++ later))
  obtain ⟨more, rfl, _, _⟩ :=
    spelling.sides_digits.1.exists_more sidesDigits sidesEnd whole
  have nonempty : spelling.sides ++ more ≠ [] :=
    List.append_ne_nil_of_left_ne_nil spelling.sides_digits.2 more
  obtain ⟨taken, afterAddend, rest, sameCount, sameSides, addendFound,
      brutalFound⟩ :=
    exists_of spelling.count_digits sidesDigits nonempty afterSides
  have matched :=
    Pattern.match?_dice_spelling taken sidesEnd addendFound brutalFound
  rw [sameCount, sameSides, ← whole] at matched
  simp only [text, List.append_assoc, List.cons_append, matched,
    Option.isSome_some]

theorem Leads.text_unique
    {spelling other : Spelling} {source : Text}
    (leads : spelling.Leads source) (otherLeads : other.Leads source) :
    spelling.text = other.text := by
  obtain ⟨later, whole⟩ := leads.1
  obtain ⟨otherLater, otherWhole⟩ := otherLeads.1
  have sizes : spelling.text.byteSize = other.text.byteSize :=
    Nat.le_antisymm (otherLeads.2 spelling leads.1)
      (leads.2 other otherLeads.1)
  have front :=
    Text.takeBytes_byteSize_append spelling.text later
  have otherFront :=
    Text.takeBytes_byteSize_append other.text otherLater
  rw [whole] at front
  rw [otherWhole, ← sizes, front] at otherFront
  exact otherFront

/-- The dice pattern matches the longest notation at the front of a text. -/
theorem leads_iff_match?
    {spelling : Spelling} {source : Text} :
    spelling.Leads source ↔
      ∃ rest, Pattern.dice.match? source = some (spelling.text, rest) := by
  constructor
  · intro leads
    obtain ⟨later, rfl⟩ := leads.1
    obtain ⟨⟨front, rest⟩, matched⟩ :=
      Option.isSome_iff_exists.mp (isSome_match?_append spelling later)
    obtain ⟨taken, rfl, takenLeads⟩ := exists_of_match? matched
    rw [matched, leads.text_unique takenLeads]
    exact ⟨rest, rfl⟩
  · intro found
    obtain ⟨rest, matched⟩ := found
    obtain ⟨taken, same, takenLeads⟩ := exists_of_match? matched
    rw [Leads, same]
    exact takenLeads

end Spelling

end DiceNotation
