import DiceNotation.Proofs.Pattern
import DiceNotation.Token

/-!
# Notation spelled out

The characters of dice notation: digit runs, a `d`, and suffixes that consist
of a sign and a digit run. The dice pattern takes as much of a text as can be
spelled that way (`match?_dice_append`, `match?_dice_spelling`).
-/

namespace DiceNotation

/-! ## Digit runs -/

namespace Text

def AllDigits (text : Text) : Prop :=
  ∀ letter ∈ text, letter.isDigit = true

theorem allDigits_nil : AllDigits [] := by
  simp [AllDigits]

theorem takeWhile_isDigit
    {digits rest : Text} (allDigits : digits.AllDigits)
    (ends : Kind.digits.EndsBefore rest) :
    (digits ++ rest).takeWhile Char.isDigit = digits := by
  rw [List.takeWhile_append_of_pos allDigits]
  cases rest with
  | nil => simp
  | cons head later =>
      have other : head.isDigit ≠ true := fun digit =>
        ends head rfl (Kind.ofChar_eq_digits_iff.mpr digit)
      simp [other]

theorem dropWhile_isDigit
    {digits rest : Text} (allDigits : digits.AllDigits)
    (ends : Kind.digits.EndsBefore rest) :
    (digits ++ rest).dropWhile Char.isDigit = rest := by
  have whole :=
    List.takeWhile_append_dropWhile
      (p := Char.isDigit) (l := digits ++ rest)
  rw [takeWhile_isDigit allDigits ends] at whole
  exact List.append_cancel_left whole

theorem takeWhile_isDigit_of_endsBefore
    {rest : Text} (ends : Kind.digits.EndsBefore rest) :
    rest.takeWhile Char.isDigit = [] :=
  takeWhile_isDigit allDigits_nil ends

theorem dropWhile_isDigit_of_endsBefore
    {rest : Text} (ends : Kind.digits.EndsBefore rest) :
    rest.dropWhile Char.isDigit = rest :=
  dropWhile_isDigit allDigits_nil ends

theorem allDigits_iff_ofChar {text : Text} :
    text.AllDigits ↔ ∀ letter ∈ text, Kind.ofChar letter = .digits := by
  simp only [AllDigits, Kind.ofChar_eq_digits_iff]

/-- The longest run of digits at the front of a text, empty or not. -/
theorem exists_digits_append (text : Text) :
    ∃ digits rest : Text,
      text = digits ++ rest ∧ digits.AllDigits ∧
        Kind.digits.EndsBefore rest := by
  obtain ⟨digits, rest, whole, uniform, ends⟩ :=
    Kind.exists_run_append .digits text
  exact ⟨digits, rest, whole, allDigits_iff_ofChar.mpr uniform, ends⟩

theorem digits_endsBefore_die (rest : Text) :
    Kind.digits.EndsBefore ('d' :: rest) := by
  simp [Kind.EndsBefore, Kind.ofChar]

theorem AllDigits.not_mem
    {digits : Text} {sign : Char} (allDigits : digits.AllDigits)
    (other : sign.isDigit = false) : sign ∉ digits := by
  intro member
  have digit := allDigits sign member
  rw [other] at digit
  contradiction

end Text

/-! ## Suffixes -/

/-- A suffix as it is written: its sign and its digits, if it is there. -/
def suffixText (sign : Char) : Option Text → Text
  | none => []
  | some digits => sign :: digits

theorem not_mem_suffixText
    (sign other : Char) {written : Option Text}
    (digits : ∀ {run}, written = some run → run.AllDigits ∧ run ≠ [])
    (different : other ≠ sign) (noDigit : other.isDigit = false) :
    other ∉ suffixText sign written := by
  cases written with
  | none => simp [suffixText]
  | some run =>
      have absent := (digits rfl).1.not_mem noDigit
      simp [suffixText, different, absent]

theorem digits_endsBefore_suffixText
    (sign : Char) (noDigit : sign.isDigit = false)
    (written : Option Text) :
    Kind.digits.EndsBefore (suffixText sign written) := by
  cases written with
  | none => simp [suffixText, Kind.EndsBefore]
  | some run =>
      simp [suffixText, Kind.EndsBefore, Kind.ofChar_eq_digits_iff,
        noDigit]

/-- What a sign has behind it at the front of a text: the digits, if there is
the sign and a digit run, and the text after them. -/
inductive SuffixAt (sign : Char) : Text → Option Text → Text → Prop
  | present {digits rest : Text} (allDigits : digits.AllDigits)
      (nonempty : digits ≠ []) (ends : Kind.digits.EndsBefore rest) :
      SuffixAt sign (sign :: (digits ++ rest)) (some digits) rest
  | dangling {rest : Text} (ends : Kind.digits.EndsBefore rest) :
      SuffixAt sign (sign :: rest) none (sign :: rest)
  | absent {text : Text} (different : text.head? ≠ some sign) :
      SuffixAt sign text none text

namespace SuffixAt

theorem exists_of (sign : Char) (text : Text) :
    ∃ digits rest, SuffixAt sign text digits rest := by
  by_cases signed : text.head? = some sign
  · obtain ⟨behind, rfl⟩ := List.head?_eq_some_iff.mp signed
    obtain ⟨digits, rest, rfl, allDigits, ends⟩ :=
      Text.exists_digits_append behind
    by_cases empty : digits = []
    · subst empty
      exact ⟨none, sign :: rest, dangling ends⟩
    · exact ⟨some digits, rest, present allDigits empty ends⟩
  · exact ⟨none, text, absent signed⟩

variable {sign : Char} {text rest : Text} {digits : Option Text}

theorem allDigits
    {run : Text} (found : SuffixAt sign text (some run) rest) :
    run.AllDigits ∧ run ≠ [] := by
  cases found with
  | present allDigits nonempty _ => exact ⟨allDigits, nonempty⟩

end SuffixAt

/-! ## Whole notation -/

/-- The digit runs of dice notation; the count may be left out. -/
structure Spelling where
  count : Text
  sides : Text
  addend : Option Text
  brutal : Option Text
  count_digits : count.AllDigits
  sides_digits : sides.AllDigits ∧ sides ≠ []
  addend_digits : ∀ {digits}, addend = some digits →
    digits.AllDigits ∧ digits ≠ []
  brutal_digits : ∀ {digits}, brutal = some digits →
    digits.AllDigits ∧ digits ≠ []

namespace Spelling

def suffixes (spelling : Spelling) : Text :=
  suffixText '+' spelling.addend ++ suffixText 'b' spelling.brutal

def text (spelling : Spelling) : Text :=
  spelling.count ++ 'd' :: (spelling.sides ++ spelling.suffixes)

theorem text_eq (spelling : Spelling) :
    spelling.text =
      (spelling.count ++ 'd' :: spelling.sides) ++
        (suffixText '+' spelling.addend ++
          suffixText 'b' spelling.brutal) := by
  simp [text, suffixes]

/-- Whatever follows the sides, there are suffixes to be taken, if only empty
ones. -/
theorem exists_of
    {count sides : Text} (countDigits : count.AllDigits)
    (sidesDigits : sides.AllDigits) (nonempty : sides ≠ [])
    (afterSides : Text) :
    ∃ spelling : Spelling, ∃ afterAddend rest,
      spelling.count = count ∧ spelling.sides = sides ∧
        SuffixAt '+' afterSides spelling.addend afterAddend ∧
        SuffixAt 'b' afterAddend spelling.brutal rest := by
  obtain ⟨addend, afterAddend, addendFound⟩ :=
    SuffixAt.exists_of '+' afterSides
  obtain ⟨brutal, rest, brutalFound⟩ :=
    SuffixAt.exists_of 'b' afterAddend
  exact
    ⟨⟨count, sides, addend, brutal, countDigits, ⟨sidesDigits, nonempty⟩,
        fun present => (present ▸ addendFound).allDigits,
        fun present => (present ▸ brutalFound).allDigits⟩,
      afterAddend, rest, rfl, rfl, addendFound, brutalFound⟩

theorem not_mem_count_sides
    (spelling : Spelling) (sign : Char) (other : sign.isDigit = false)
    (different : sign ≠ 'd') :
    sign ∉ spelling.count ++ 'd' :: spelling.sides := by
  have noCount := spelling.count_digits.not_mem other
  have noSides := spelling.sides_digits.1.not_mem other
  simp [noCount, noSides, different]

/-- Suffixes begin with a sign, so the digits before them end there. -/
theorem digits_endsBefore_suffixes (spelling : Spelling) :
    Kind.digits.EndsBefore spelling.suffixes := by
  rw [suffixes]
  cases spelling.addend with
  | none =>
      exact digits_endsBefore_suffixText 'b' (by decide) spelling.brutal
  | some run =>
      exact digits_endsBefore_suffixText '+' (by decide) (some run)

end Spelling

/-! ## The dice pattern -/

namespace Pattern

def sign (letter : Char) : Pattern := .letter (· == letter)

/-- `[0-9]+` -/
def number : Pattern := .both (.letter Char.isDigit) (.many Char.isDigit)

/-- A sign with a number behind it, or nothing. -/
def suffix (letter : Char) : Pattern := .optional (.both (sign letter) number)

/-- `[0-9]*d[0-9]+(\+[0-9]+)?(b[0-9]+)?` -/
def dice : Pattern :=
  .both (.many Char.isDigit)
    (.both (sign 'd') (.both number (.both (suffix '+') (suffix 'b'))))

/-- A number is a whole run of digits, and not an empty one. -/
theorem match?_number (text : Text) :
    number.match? text =
      if text.takeWhile Char.isDigit = [] then
        none
      else
        some (text.takeWhile Char.isDigit, text.dropWhile Char.isDigit) := by
  cases text with
  | nil => rfl
  | cons head rest =>
      rw [number, match?_both_letter_cons, match?_many]
      by_cases digit : head.isDigit
      · simp [digit]
      · simp [digit]

theorem match?_sign_append (letter : Char) (second : Pattern) (rest : Text) :
    (both (sign letter) second).match? (letter :: rest) =
      (second.match? rest).map fun back => (letter :: back.1, back.2) := by
  rw [sign, match?_both_letter_cons, if_pos (beq_self_eq_true letter)]

theorem match?_sign_of_ne
    {letter : Char} {text : Text} (second : Pattern)
    (different : text.head? ≠ some letter) :
    (both (sign letter) second).match? text = none := by
  cases text with
  | nil => rfl
  | cons head rest =>
      rw [sign, match?_both_letter_cons, if_neg]
      simpa using different

theorem match?_suffix_isSome (letter : Char) (text : Text) :
    ((suffix letter).match? text).isSome := by
  rw [suffix, match?_optional]
  rfl

theorem match?_suffixes_isSome (first second : Char) (text : Text) :
    ((both (suffix first) (suffix second)).match? text).isSome := by
  rw [match?_both (match?_suffix_isSome second)]
  obtain ⟨front, found⟩ :=
    Option.isSome_iff_exists.mp (match?_suffix_isSome first text)
  rw [found, Option.bind_some, Option.isSome_map]
  exact match?_suffix_isSome second front.2

/-- The count never gives back a digit, because only `d` can follow it. -/
theorem match?_dice (text : Text) :
    dice.match? text =
      ((both (sign 'd')
          (both number (both (suffix '+') (suffix 'b')))).match?
        (text.dropWhile Char.isDigit)).map fun back =>
          (text.takeWhile Char.isDigit ++ back.1, back.2) := by
  apply match?_both_many
  intro head rest digit
  apply match?_sign_of_ne
  intro same
  cases same
  contradiction

theorem ne_nil_of_match?_dice
    {text front rest : Text}
    (found : dice.match? text = some (front, rest)) : front ≠ [] := by
  rw [match?_dice] at found
  obtain ⟨back, backFound, same⟩ := Option.map_eq_some_iff.mp found
  cases same
  cases behind : text.dropWhile Char.isDigit with
  | nil =>
      rw [behind] at backFound
      contradiction
  | cons head later =>
      rw [behind, sign, match?_both_letter_cons] at backFound
      split at backFound
      · obtain ⟨last, -, same⟩ := Option.map_eq_some_iff.mp backFound
        cases same
        simp
      · contradiction

theorem length_lt_of_match?_dice
    {text front rest : Text}
    (found : dice.match? text = some (front, rest)) :
    rest.length < text.length := by
  have positive :=
    List.length_pos_iff.mpr (ne_nil_of_match?_dice found)
  rw [← append_of_match? found, List.length_append]
  omega

theorem match?_number_append
    {digits rest : Text} (allDigits : digits.AllDigits)
    (nonempty : digits ≠ []) (ends : Kind.digits.EndsBefore rest) :
    number.match? (digits ++ rest) = some (digits, rest) := by
  rw [match?_number, Text.takeWhile_isDigit allDigits ends,
    Text.dropWhile_isDigit allDigits ends, if_neg nonempty]

theorem match?_number_eq_none
    {rest : Text} (ends : Kind.digits.EndsBefore rest) :
    number.match? rest = none := by
  rw [match?_number,
    if_pos (Text.takeWhile_isDigit_of_endsBefore ends)]

/-- The suffix that stands at the front is what matches. -/
theorem match?_suffix
    {letter : Char} {text rest : Text} {digits : Option Text}
    (found : SuffixAt letter text digits rest) :
    (suffix letter).match? text =
      some (suffixText letter digits, rest) := by
  rw [suffix, match?_optional]
  cases found with
  | present allDigits nonempty ends =>
      rw [match?_sign_append, match?_number_append allDigits nonempty ends]
      rfl
  | dangling ends =>
      rw [match?_sign_append, match?_number_eq_none ends]
      rfl
  | absent different =>
      rw [match?_sign_of_ne number different]
      rfl

/-- A match behind leading digits takes these digits in. -/
theorem match?_dice_append
    {digits rest : Text} (allDigits : digits.AllDigits)
    (ends : Kind.digits.EndsBefore rest) :
    dice.match? (digits ++ rest) =
      (dice.match? rest).map fun back => (digits ++ back.1, back.2) := by
  rw [match?_dice, match?_dice rest,
    Text.takeWhile_isDigit allDigits ends,
    Text.dropWhile_isDigit allDigits ends,
    Text.takeWhile_isDigit_of_endsBefore ends,
    Text.dropWhile_isDigit_of_endsBefore ends, Option.map_map]
  rfl

theorem match?_dice_of_ne
    {text : Text} (ends : Kind.digits.EndsBefore text)
    (different : text.head? ≠ some 'd') : dice.match? text = none := by
  rw [match?_dice, Text.dropWhile_isDigit_of_endsBefore ends,
    match?_sign_of_ne _ different]
  rfl

/-- A `d` without digits behind it is no notation. -/
theorem match?_dice_die_of_endsBefore
    {rest : Text} (ends : Kind.digits.EndsBefore rest) :
    dice.match? ('d' :: rest) = none := by
  rw [match?_dice, List.dropWhile_cons_of_neg (by decide),
    match?_sign_append, match?_both (match?_suffixes_isSome '+' 'b'),
    match?_number_eq_none ends]
  rfl

/-- The pattern takes each suffix that it meets. -/
theorem match?_dice_spelling
    (spelling : Spelling) {afterSides afterAddend rest : Text}
    (ends : Kind.digits.EndsBefore afterSides)
    (addendFound : SuffixAt '+' afterSides spelling.addend afterAddend)
    (brutalFound : SuffixAt 'b' afterAddend spelling.brutal rest) :
    dice.match? (spelling.count ++ 'd' :: (spelling.sides ++ afterSides)) =
      some (spelling.text, rest) := by
  have countEnds :=
    Text.digits_endsBefore_die (spelling.sides ++ afterSides)
  rw [match?_dice, Text.dropWhile_isDigit spelling.count_digits countEnds,
    Text.takeWhile_isDigit spelling.count_digits countEnds,
    match?_sign_append, match?_both (match?_suffixes_isSome '+' 'b'),
    match?_number_append spelling.sides_digits.1 spelling.sides_digits.2
      ends,
    Option.bind_some, match?_both (match?_suffix_isSome 'b'),
    match?_suffix addendFound, Option.bind_some,
    match?_suffix brutalFound]
  rfl

end Pattern

end DiceNotation
