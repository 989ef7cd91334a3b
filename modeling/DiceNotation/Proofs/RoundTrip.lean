import DiceNotation.Proofs.Reading

/-!
# Written expressions are read back

The notation that an expression is written in is the longest at the front of
any text that does not go on with a digit, `+` or `b` behind it
(`leads_render_append`). So it is read back whatever follows.
-/

namespace DiceNotation

/-! ## Parts of notation in front of other text -/

theorem Kind.EndsBefore.append
    {kind : Kind} {front rest : Text} (ends : kind.EndsBefore front)
    (endsRest : kind.EndsBefore rest) : kind.EndsBefore (front ++ rest) := by
  cases front with
  | nil => exact endsRest
  | cons head others => exact ends

theorem SuffixAt.of_suffixText
    {sign : Char} {written : Option Text} {rest : Text}
    (digits : ∀ {run}, written = some run → run.AllDigits ∧ run ≠ [])
    (ends : Kind.digits.EndsBefore rest)
    (different : rest.head? ≠ some sign) :
    SuffixAt sign (suffixText sign written ++ rest) written rest := by
  cases written with
  | none => exact absent different
  | some run =>
      obtain ⟨allDigits, nonempty⟩ := digits rfl
      exact present allDigits nonempty ends

/-- The text does not go on with anything that notation could take in. -/
def Text.Stops (text : Text) : Prop :=
  ∀ letter ∈ text.head?,
    letter.isDigit = false ∧ letter ≠ '+' ∧ letter ≠ 'b'

namespace Text.Stops

variable {text : Text} (stops : text.Stops)
include stops

theorem endsBefore : Kind.digits.EndsBefore text := by
  intro letter member digit
  rw [Kind.ofChar_eq_digits_iff, (stops letter member).1] at digit
  contradiction

theorem head?_ne_plus : text.head? ≠ some '+' :=
  fun same => (stops '+' same).2.1 rfl

theorem head?_ne_brutal : text.head? ≠ some 'b' :=
  fun same => (stops 'b' same).2.2 rfl

end Text.Stops

theorem Text.allDigits_decimal (number : Nat) :
    (Text.decimal number).AllDigits :=
  fun _ member => Text.isDigit_of_mem_decimal member

namespace Expression

/-! ## How an expression is spelled -/

/-- The digits of a number that is left out when it is zero. -/
def digits? (word : UInt32) : Option Text :=
  if word = 0 then none else some (Text.decimal word.toNat)

theorem digits_of_digits?_eq_some
    {word : UInt32} {run : Text} (written : digits? word = some run) :
    run.AllDigits ∧ run ≠ [] := by
  rw [digits?] at written
  split at written
  · contradiction
  · cases written
    exact ⟨Text.allDigits_decimal _, Text.decimal_ne_nil _⟩

theorem value_digits? (word : UInt32) :
    ((digits? word).map Text.value).getD 0 = word.toNat := by
  by_cases zero : word = 0
  · rw [zero]
    rfl
  · rw [digits?, if_neg zero, Option.map_some, Option.getD_some,
      Text.value_decimal]

theorem suffixText_digits? (sign : Char) (word : UInt32) :
    suffixText sign (digits? word) =
      if word = 0 then [] else sign :: Text.decimal word.toNat := by
  rw [digits?]
  split
  · rfl
  · rfl

/-- The digit runs of the notation for an expression. -/
def spelling (expression : Expression) : Spelling where
  count := Text.decimal expression.count.toNat
  sides := Text.decimal expression.sides.toNat
  addend := digits? expression.addend
  brutal := digits? expression.brutal
  count_digits := Text.allDigits_decimal _
  sides_digits := ⟨Text.allDigits_decimal _, Text.decimal_ne_nil _⟩
  addend_digits := digits_of_digits?_eq_some
  brutal_digits := digits_of_digits?_eq_some

/-- Rendering writes a spelling. -/
theorem text_spelling (expression : Expression) :
    expression.spelling.text = expression.render := by
  simp only [Spelling.text, Spelling.suffixes, spelling, render,
    suffixText_digits?, List.append_assoc, List.cons_append]

theorem denotes_spelling (expression : Expression) :
    expression.spelling.Denotes expression where
  count := by
    have written : expression.spelling.count ≠ [] :=
      Text.decimal_ne_nil _
    rw [Spelling.countValue, if_neg written]
    exact (Text.value_decimal _).symm
  sides := (Text.value_decimal _).symm
  addend := (value_digits? expression.addend).symm
  brutal := (value_digits? expression.brutal).symm

/-! ## Written expressions in front of other text -/

/-- Behind a written expression nothing that stops can make it longer. -/
theorem leads_render_append
    (expression : Expression) {rest : Text} (stops : rest.Stops) :
    expression.spelling.Leads (expression.render ++ rest) := by
  let brutalText := suffixText 'b' expression.spelling.brutal
  have brutalFound :
      SuffixAt 'b' (brutalText ++ rest) expression.spelling.brutal rest :=
    SuffixAt.of_suffixText expression.spelling.brutal_digits
      stops.endsBefore stops.head?_ne_brutal
  have brutalEnds : Kind.digits.EndsBefore (brutalText ++ rest) :=
    (digits_endsBefore_suffixText 'b' (by decide) _).append
      stops.endsBefore
  have noPlus : (brutalText ++ rest).head? ≠ some '+' := by
    cases written : expression.spelling.brutal with
    | none =>
        simp only [brutalText, written, suffixText, List.nil_append]
        exact stops.head?_ne_plus
    | some run => simp [brutalText, written, suffixText]
  have addendFound :
      SuffixAt '+'
        (suffixText '+' expression.spelling.addend ++ (brutalText ++ rest))
        expression.spelling.addend (brutalText ++ rest) :=
    SuffixAt.of_suffixText expression.spelling.addend_digits brutalEnds
      noPlus
  have addendEnds :
      Kind.digits.EndsBefore
        (suffixText '+' expression.spelling.addend ++
          (brutalText ++ rest)) :=
    (digits_endsBefore_suffixText '+' (by decide) _).append brutalEnds
  have leads :=
    Spelling.leads_of_suffixAt expression.spelling addendEnds addendFound
      brutalFound
  rw [← text_spelling]
  simpa only [Spelling.text, Spelling.suffixes, List.append_assoc,
    List.cons_append] using leads

/-- A written expression is matched as a whole, and what follows is searched
by itself. -/
theorem all_render_append
    (expression : Expression) {rest : Text} (stops : rest.Stops) :
    Match.all (expression.render ++ rest) =
      ⟨0, expression.render⟩ ::
        Match.searchFrom expression.render.byteSize rest := by
  obtain ⟨later, matched⟩ :=
    Spelling.leads_iff_match?.mp (leads_render_append expression stops)
  rw [text_spelling] at matched
  have behind : later = rest :=
    List.append_cancel_left (Pattern.append_of_match? matched)
  rw [Match.all, Match.searchFrom_of_match? 0 matched, Nat.zero_add, behind]

theorem occurrence?_render (start : Nat) (expression : Expression) :
    Match.occurrence? ⟨start, expression.render⟩ =
      some
        ⟨expression, ⟨start, start + expression.render.byteSize⟩⟩ := by
  rw [← text_spelling, Match.occurrence?_spelling_iff]
  exact ⟨denotes_spelling expression, rfl⟩

/-- A written expression is found at the front, and the rest is searched on its
own. -/
theorem occurrences_render_append
    (expression : Expression) {rest : Text} (stops : rest.Stops) :
    occurrences (expression.render ++ rest) =
      ⟨expression, ⟨0, expression.render.byteSize⟩⟩ ::
        (Match.searchFrom expression.render.byteSize rest).filterMap
          Match.occurrence? := by
  rw [occurrences_eq, all_render_append expression stops,
    List.filterMap_cons_some (occurrence?_render 0 expression),
    Nat.zero_add]

theorem head?_occurrences_render_append
    (expression : Expression) {rest : Text} (stops : rest.Stops) :
    (occurrences (expression.render ++ rest)).head? =
      some ⟨expression, ⟨0, expression.render.byteSize⟩⟩ := by
  rw [occurrences_render_append expression stops, List.head?_cons]

/-- What an expression is written as is read as that expression, and wherever
it is followed by nothing that it could take in, it is the first notation and
ends where it was written to end. -/
theorem read_render (expression : Expression) :
    read expression.render = .ok expression ∧
      ∀ rest : Text, rest.Stops →
        leading? (expression.render ++ rest) = some expression ∧
          (occurrences (expression.render ++ rest)).head? =
            some ⟨expression, ⟨0, expression.render.byteSize⟩⟩ := by
  constructor
  · exact
      read_eq_ok_iff.mpr
        ⟨expression.spelling, text_spelling expression,
          denotes_spelling expression⟩
  · intro rest stops
    constructor
    · exact
        leading?_eq_some_iff.mpr
          ⟨expression.spelling, leads_render_append expression stops,
            denotes_spelling expression⟩
    · exact head?_occurrences_render_append expression stops

/-- The notation `4294967295d20+7b3` may be followed by `d6`. -/
theorem leading?_largest_count_before_die :
    Text.Stops "d6".toList ∧
      leading? "4294967295d20+7b3d6".toList =
          some ⟨⟨4294967295, by decide⟩, ⟨20, by decide⟩, 7, 3⟩ ∧
        (occurrences "4294967295d20+7b3d6".toList).head? =
          some
            ⟨⟨⟨4294967295, by decide⟩, ⟨20, by decide⟩, 7, 3⟩,
              ⟨0, 17⟩⟩ := by
  let expression : Expression :=
    ⟨⟨4294967295, by decide⟩, ⟨20, by decide⟩, 7, 3⟩
  have written : expression.render = "4294967295d20+7b3".toList := by
    decide +kernel
  have stops : Text.Stops "d6".toList := by
    intro letter member
    cases member
    decide
  have readBack := (read_render expression).2 "d6".toList stops
  rw [written] at readBack
  exact ⟨stops, readBack⟩

end Expression

end DiceNotation
