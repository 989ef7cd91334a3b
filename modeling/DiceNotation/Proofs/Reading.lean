import DiceNotation.Proofs.Longest
import DiceNotation.Proofs.Scan
import DiceNotation.Reading

/-!
# Reading exactly one expression

The longest notation at the front of a text decides what is read there
(`leadingOccurrence?_eq_some_iff`). A text is an expression if it is notation
as a whole with numbers that can be used (`read_eq_ok_iff`); otherwise the
longest notation at its front tells which error it is.
-/

namespace DiceNotation

/-! ## What notation stands for -/

namespace Spelling

/-- A missing count is one. -/
def countValue (spelling : Spelling) : Nat :=
  if spelling.count = [] then 1 else Text.value spelling.count

def sidesValue (spelling : Spelling) : Nat := Text.value spelling.sides

/-- A missing addend is zero. -/
def addendValue (spelling : Spelling) : Nat :=
  (spelling.addend.map Text.value).getD 0

/-- A missing threshold is zero. -/
def brutalValue (spelling : Spelling) : Nat :=
  (spelling.brutal.map Text.value).getD 0

/-- Every number is a 32-bit word, and neither the count nor the number of
sides is zero. -/
def Usable (spelling : Spelling) : Prop :=
  (0 < spelling.countValue ∧ spelling.countValue < UInt32.size) ∧
    (0 < spelling.sidesValue ∧ spelling.sidesValue < UInt32.size) ∧
    spelling.addendValue < UInt32.size ∧
    spelling.brutalValue < UInt32.size

/-- The numbers of the expression are those written. -/
structure Denotes (spelling : Spelling) (expression : Expression) :
    Prop where
  count : expression.count.toNat = spelling.countValue
  sides : expression.sides.toNat = spelling.sidesValue
  addend : expression.addend.toNat = spelling.addendValue
  brutal : expression.brutal.toNat = spelling.brutalValue

theorem Denotes.usable
    {spelling : Spelling} {expression : Expression}
    (denotes : spelling.Denotes expression) : spelling.Usable := by
  rw [Usable, ← denotes.count, ← denotes.sides, ← denotes.addend,
    ← denotes.brutal]
  exact
    ⟨⟨expression.count.toNat_pos, expression.count.toNat_lt⟩,
      ⟨expression.sides.toNat_pos, expression.sides.toNat_lt⟩,
      expression.addend.toNat_lt_size, expression.brutal.toNat_lt_size⟩

end Spelling

theorem Positive.toNat_inj {first second : Positive} :
    first.toNat = second.toNat ↔ first = second := by
  rw [Positive.toNat, Positive.toNat, UInt32.toNat_inj]
  constructor
  · intro same
    cases first
    cases second
    cases same
    rfl
  · exact congrArg Positive.val

/-- A spelling denotes at most one expression. -/
theorem Spelling.Denotes.unique
    {spelling : Spelling} {first second : Expression}
    (denotes : spelling.Denotes first)
    (also : spelling.Denotes second) : first = second := by
  have counts := denotes.count.trans also.count.symm
  have sides := denotes.sides.trans also.sides.symm
  have addends := denotes.addend.trans also.addend.symm
  have brutals := denotes.brutal.trans also.brutal.symm
  rw [Positive.toNat_inj] at counts sides
  rw [UInt32.toNat_inj] at addends brutals
  cases first
  cases second
  simp_all

/-! ## Notation at the front of a text -/

namespace Match

variable {start : Nat} {spelling : Spelling}

theorem addend_eq_addendValue :
    (⟨start, spelling.text⟩ : Match).addend = spelling.addendValue := by
  rw [addend_spelling, Spelling.addendValue]
  cases spelling.addend <;> rfl

theorem brutal_eq_brutalValue :
    (⟨start, spelling.text⟩ : Match).brutal = spelling.brutalValue := by
  rw [brutal_spelling, Spelling.brutalValue]
  cases spelling.brutal <;> rfl

theorem usable_spelling_iff :
    (⟨start, spelling.text⟩ : Match).Usable ↔ spelling.Usable := by
  rw [Usable, Spelling.Usable, count_spelling, sides_spelling,
    addend_eq_addendValue, brutal_eq_brutalValue]
  rfl

theorem denotes_of_occurrence?
    {occurrence : Occurrence}
    (found :
      Match.occurrence? ⟨start, spelling.text⟩ = some occurrence) :
    spelling.Denotes occurrence.expression := by
  rw [occurrence?] at found
  split at found
  · next usable =>
      cases found
      constructor
      · exact
          (UInt32.toNat_ofNat_of_lt' usable.1.2).trans
            (count_spelling start spelling)
      · exact
          (UInt32.toNat_ofNat_of_lt' usable.2.1.2).trans
            (sides_spelling start spelling)
      · exact
          (UInt32.toNat_ofNat_of_lt' usable.2.2.1).trans
            addend_eq_addendValue
      · exact
          (UInt32.toNat_ofNat_of_lt' usable.2.2.2).trans
            brutal_eq_brutalValue
  · contradiction

theorem exists_occurrence?_of_usable
    (start : Nat) (usable : spelling.Usable) :
    ∃ occurrence,
      Match.occurrence? ⟨start, spelling.text⟩ = some occurrence := by
  rw [occurrence?, dif_pos (usable_spelling_iff.mpr usable)]
  exact ⟨_, rfl⟩

theorem occurrence?_spelling_iff {occurrence : Occurrence} :
    Match.occurrence? ⟨start, spelling.text⟩ = some occurrence ↔
      spelling.Denotes occurrence.expression ∧
        occurrence.span =
          ⟨start, start + spelling.text.byteSize⟩ := by
  constructor
  · intro found
    exact ⟨denotes_of_occurrence? found, span_of_occurrence? found⟩
  · intro denoted
    obtain ⟨denotes, span⟩ := denoted
    obtain ⟨found, usable⟩ :=
      exists_occurrence?_of_usable start denotes.usable
    have sameExpression :=
      (denotes_of_occurrence? usable).unique denotes
    have sameSpan := (span_of_occurrence? usable).trans span.symm
    rw [usable]
    cases found
    cases occurrence
    simp_all

/-- What is found behind the beginning of a text does not lead it. -/
theorem filter_head?_searchFrom
    (positive : 0 < start) (source : Text) :
    (((searchFrom start source).filterMap occurrence?).head?.filter
      fun first => first.span.start = 0) = none := by
  have cut :=
    (cutFrom_searchFrom start source).sublist
      (map_span_sublist (searchFrom start source))
  rw [Option.filter_eq_none_iff]
  intro first found
  have member :=
    List.mem_map_of_mem (f := Occurrence.span)
      (List.mem_of_mem_head? found)
  have behind := cut.start_le member
  simp only [decide_eq_true_eq]
  omega

end Match

theorem leadingOccurrence?_eq (source : Text) :
    leadingOccurrence? source =
      (Pattern.dice.match? source).bind fun matched =>
        Match.occurrence? ⟨0, matched.1⟩ := by
  rw [leadingOccurrence?, occurrences_eq, Match.all]
  cases matched : Pattern.dice.match? source with
  | none =>
      cases source with
      | nil =>
          rw [Match.searchFrom]
          rfl
      | cons head rest =>
          rw [Match.searchFrom_cons 0 matched]
          apply Match.filter_head?_searchFrom
          rw [Nat.zero_add]
          exact head.utf8Size_pos
  | some split =>
      obtain ⟨front, rest⟩ := split
      rw [Match.searchFrom_of_match? 0 matched, Option.bind_some]
      cases found : Match.occurrence? ⟨0, front⟩ with
      | none =>
          rw [List.filterMap_cons_none found]
          apply Match.filter_head?_searchFrom
          rw [Nat.zero_add]
          exact Text.byteSize_pos (Pattern.ne_nil_of_match?_dice matched)
      | some first =>
          have span := Match.span_of_occurrence? found
          rw [List.filterMap_cons_some found, List.head?_cons,
            Option.filter_some, span]
          rfl

/-- The occurrence at the front is what the longest spelling there denotes. -/
theorem leadingOccurrence?_eq_some_iff
    {source : Text} {first : Occurrence} :
    leadingOccurrence? source = some first ↔
      ∃ spelling : Spelling,
        spelling.Leads source ∧ spelling.Denotes first.expression ∧
          first.span = ⟨0, spelling.text.byteSize⟩ := by
  rw [leadingOccurrence?_eq, Option.bind_eq_some_iff]
  constructor
  · intro found
    obtain ⟨⟨front, rest⟩, matched, usable⟩ := found
    obtain ⟨spelling, rfl, leads⟩ := Spelling.exists_of_match? matched
    obtain ⟨denotes, span⟩ := Match.occurrence?_spelling_iff.mp usable
    rw [Nat.zero_add] at span
    exact ⟨spelling, leads, denotes, span⟩
  · intro found
    obtain ⟨spelling, leads, denotes, span⟩ := found
    obtain ⟨rest, matched⟩ := Spelling.leads_iff_match?.mp leads
    refine
      ⟨(spelling.text, rest), matched,
        Match.occurrence?_spelling_iff.mpr ⟨denotes, ?_⟩⟩
    rw [Nat.zero_add]
    exact span

theorem leadingOccurrence?_eq_none_iff {source : Text} :
    leadingOccurrence? source = none ↔
      ¬ ∃ spelling : Spelling, spelling.Leads source ∧ spelling.Usable := by
  constructor
  · intro nothing present
    obtain ⟨spelling, leads, usable⟩ := present
    obtain ⟨rest, matched⟩ := Spelling.leads_iff_match?.mp leads
    obtain ⟨first, found⟩ :=
      Match.exists_occurrence?_of_usable 0 usable
    rw [leadingOccurrence?_eq, matched, Option.bind_some, found] at nothing
    contradiction
  · intro unusable
    rw [Option.eq_none_iff_forall_ne_some]
    intro first found
    obtain ⟨spelling, leads, denotes, _⟩ :=
      leadingOccurrence?_eq_some_iff.mp found
    exact unusable ⟨spelling, leads, denotes.usable⟩

/-! ## Reading a whole text -/

namespace Spelling

variable {spelling : Spelling} {source : Text}

theorem leads_self (spelling : Spelling) : spelling.Leads spelling.text := by
  refine ⟨List.prefix_rfl, ?_⟩
  intro other front
  obtain ⟨later, whole⟩ := front
  rw [← whole, Text.byteSize_append]
  exact Nat.le_add_right _ _

theorem Leads.byteSize_eq_iff (leads : spelling.Leads source) :
    spelling.text.byteSize = source.byteSize ↔ spelling.text = source := by
  obtain ⟨later, rfl⟩ := leads.1
  constructor
  · intro sizes
    have nothing : later = [] := by
      by_contra nonempty
      have positive := Text.byteSize_pos nonempty
      rw [Text.byteSize_append] at sizes
      omega
    rw [nothing, List.append_nil]
  · exact congrArg Text.byteSize

theorem Leads.takeBytes (leads : spelling.Leads source) :
    source.takeBytes spelling.text.byteSize = spelling.text := by
  obtain ⟨later, rfl⟩ := leads.1
  exact Text.takeBytes_byteSize_append spelling.text later

end Spelling

namespace Expression

variable {source : Text} {expression : Expression}

theorem leading?_eq_some_iff :
    leading? source = some expression ↔
      ∃ spelling : Spelling,
        spelling.Leads source ∧ spelling.Denotes expression := by
  rw [leading?, Option.map_eq_some_iff]
  constructor
  · intro found
    obtain ⟨first, present, rfl⟩ := found
    obtain ⟨spelling, leads, denotes, _⟩ :=
      leadingOccurrence?_eq_some_iff.mp present
    exact ⟨spelling, leads, denotes⟩
  · intro found
    obtain ⟨spelling, leads, denotes⟩ := found
    exact
      ⟨⟨expression, ⟨0, spelling.text.byteSize⟩⟩,
        leadingOccurrence?_eq_some_iff.mpr
          ⟨spelling, leads, denotes, rfl⟩,
        rfl⟩

/-- What leads the input and is usable is read, and anything behind it is
reported. -/
theorem read_of_leads
    {spelling : Spelling} (leads : spelling.Leads source)
    (denotes : spelling.Denotes expression) :
    read source =
      if spelling.text = source then
        .ok expression
      else
        .error (.trailingInput spelling.text.byteSize) := by
  have first :
      leadingOccurrence? source =
        some ⟨expression, ⟨0, spelling.text.byteSize⟩⟩ :=
    leadingOccurrence?_eq_some_iff.mpr ⟨spelling, leads, denotes, rfl⟩
  rw [read, first]
  simp only [leads.byteSize_eq_iff]

theorem read_eq_noDice_iff :
    read source = .error .noDice ↔
      ¬ ∃ spelling : Spelling,
        spelling.Leads source ∧ spelling.Usable := by
  rw [← leadingOccurrence?_eq_none_iff, read]
  cases leadingOccurrence? source with
  | none => simp
  | some first =>
      by_cases whole : first.span.stop = source.byteSize
      · simp [whole]
      · simp [whole]

/-- Reading fails for want of notation, or it goes by the longest notation at
the front of the text. -/
theorem read_cases (source : Text) :
    read source = .error .noDice ∨
      ∃ (spelling : Spelling) (expression : Expression),
        spelling.Leads source ∧ spelling.Denotes expression := by
  cases found : leadingOccurrence? source with
  | none =>
      rw [read, found]
      exact Or.inl rfl
  | some first =>
      obtain ⟨spelling, leads, denotes, _⟩ :=
        leadingOccurrence?_eq_some_iff.mp found
      exact Or.inr ⟨spelling, first.expression, leads, denotes⟩

theorem read_eq_ok_iff :
    read source = .ok expression ↔
      ∃ spelling : Spelling,
        spelling.text = source ∧ spelling.Denotes expression := by
  constructor
  · intro done
    rcases read_cases source with failed | ⟨spelling, other, leads, denotes⟩
    · rw [failed] at done
      contradiction
    · rw [read_of_leads leads denotes] at done
      split at done
      · next whole =>
          cases done
          exact ⟨spelling, whole, denotes⟩
      · contradiction
  · intro spelled
    obtain ⟨spelling, rfl, denotes⟩ := spelled
    rw [read_of_leads spelling.leads_self denotes, if_pos rfl]

theorem read_eq_trailingInput_iff {position : Nat} :
    read source = .error (.trailingInput position) ↔
      ∃ spelling : Spelling,
        spelling.Leads source ∧ spelling.Usable ∧
          spelling.text ≠ source ∧ position = spelling.text.byteSize := by
  constructor
  · intro fails
    rcases read_cases source with failed | ⟨spelling, other, leads, denotes⟩
    · rw [failed] at fails
      cases fails
    · rw [read_of_leads leads denotes] at fails
      split at fails
      · contradiction
      · next different =>
          cases fails
          exact ⟨spelling, leads, denotes.usable, different, rfl⟩
  · intro led
    obtain ⟨spelling, leads, usable, different, rfl⟩ := led
    rcases read_cases source with failed | ⟨other, denoted, others, denotes⟩
    · exact absurd ⟨spelling, leads, usable⟩ (read_eq_noDice_iff.mp failed)
    · have same := leads.text_unique others
      rw [read_of_leads others denotes, ← same, if_neg different]

/-- An expression leads a text if it is read from the whole text or from all
before the first byte of further input. -/
theorem leading?_eq_some_iff_read :
    leading? source = some expression ↔
      read source = .ok expression ∨
        ∃ position,
          read source = .error (.trailingInput position) ∧
            read (source.takeBytes position) = .ok expression := by
  rw [leading?_eq_some_iff]
  constructor
  · intro led
    obtain ⟨spelling, leads, denotes⟩ := led
    have whole := read_of_leads leads denotes
    by_cases same : spelling.text = source
    · rw [if_pos same] at whole
      exact Or.inl whole
    · rw [if_neg same] at whole
      refine Or.inr ⟨spelling.text.byteSize, whole, ?_⟩
      rw [leads.takeBytes]
      exact read_eq_ok_iff.mpr ⟨spelling, rfl, denotes⟩
  · intro done
    rcases done with whole | ⟨position, fails, front⟩
    · obtain ⟨spelling, rfl, denotes⟩ := read_eq_ok_iff.mp whole
      exact ⟨spelling, spelling.leads_self, denotes⟩
    · obtain ⟨longest, leads, _, _, rfl⟩ :=
        read_eq_trailingInput_iff.mp fails
      rw [leads.takeBytes] at front
      obtain ⟨spelling, same, denotes⟩ := read_eq_ok_iff.mp front
      rw [Spelling.Leads, ← same] at leads
      exact ⟨spelling, leads, denotes⟩

/-- How reading ends. A text is read as an expression if it is notation with
usable numbers as a whole. Otherwise the longest notation at its front, if it
has usable numbers, is followed by more input, and if there is none or it has
others, there are no dice, even if shorter notation could be used. An
expression leads a text if it is the whole text or all before the first byte
of further input. -/
theorem read_outcomes (source : Text) :
    (∀ expression,
      read source = .ok expression ↔
        ∃ spelling : Spelling,
          spelling.text = source ∧ spelling.Usable ∧
            spelling.Denotes expression) ∧
    (∀ position,
      read source = .error (.trailingInput position) ↔
        ∃ spelling : Spelling,
          spelling.Leads source ∧ spelling.Usable ∧
            spelling.text ≠ source ∧
              position = spelling.text.byteSize) ∧
    (read source = .error .noDice ↔
      ¬ ∃ spelling : Spelling,
        spelling.Leads source ∧ spelling.Usable) ∧
    ∀ expression,
      leading? source = some expression ↔
        read source = .ok expression ∨
          ∃ position,
            read source = .error (.trailingInput position) ∧
              read (source.takeBytes position) = .ok expression := by
  refine
    ⟨?_, fun _ => read_eq_trailingInput_iff, read_eq_noDice_iff,
      fun _ => leading?_eq_some_iff_read⟩
  intro expression
  rw [read_eq_ok_iff]
  constructor
  · intro spelled
    obtain ⟨spelling, whole, denotes⟩ := spelled
    exact ⟨spelling, whole, denotes.usable, denotes⟩
  · intro spelled
    obtain ⟨spelling, whole, _, denotes⟩ := spelled
    exact ⟨spelling, whole, denotes⟩

end Expression

end DiceNotation
