import DiceNotation.Proofs.Reading
import DiceNotation.Proofs.Substitution

/-!
# Where a text is cut

A span may be cut out of a text if it lies in the text and breaks no character
of the UTF-8 encoding (`Text.fits_iff_exists_append`). So it is with the spans
of dice notation and with the gaps that they leave, and each piece of notation
is read by itself as it is read in its place.
-/

namespace DiceNotation

/-! ## Bytes and boundaries -/

namespace Text

/-- The bytes of the UTF-8 encoding. -/
def bytes (text : Text) : List UInt8 :=
  text.flatMap String.utf8EncodeChar

/-- The bytes that `span` covers. -/
def bytesIn (text : Text) (span : Span) : List UInt8 :=
  (text.bytes.drop span.start).take (span.stop - span.start)

/-- No character is broken by a cut before byte `offset`. -/
def Boundary (text : Text) (offset : Nat) : Prop :=
  String.Pos.Raw.IsValid (String.ofList text) ⟨offset⟩

/-- The span may be cut out of the text: it lies in the text and breaks no
character. -/
structure Fits (text : Text) (span : Span) : Prop where
  ordered : span.start ≤ span.stop
  inside : span.stop ≤ text.byteSize
  start_boundary : text.Boundary span.start
  stop_boundary : text.Boundary span.stop

@[simp]
theorem bytes_append (front rest : Text) :
    bytes (front ++ rest) = bytes front ++ bytes rest :=
  List.flatMap_append

theorem length_bytes (text : Text) : text.bytes.length = text.byteSize := by
  induction text with
  | nil => rfl
  | cons letter rest inductionHypothesis =>
      have first : bytes [letter] = String.utf8EncodeChar letter :=
        List.flatMap_singleton _ letter
      rw [← List.singleton_append, bytes_append, List.length_append,
        inductionHypothesis, first, String.length_utf8EncodeChar]
      simp

theorem utf8ByteSize_ofList (text : Text) :
    (String.ofList text).utf8ByteSize = text.byteSize := by
  rw [String.utf8ByteSize, String.toByteArray_ofList, List.utf8Encode,
    List.size_toByteArray]
  exact length_bytes text

/-- A boundary is where the text can be cut into two texts. -/
theorem boundary_iff_exists_append {text : Text} {offset : Nat} :
    text.Boundary offset ↔
      ∃ front rest, text = front ++ rest ∧ offset = front.byteSize := by
  rw [Boundary, String.Pos.Raw.isValid_ofList]
  simp only [utf8ByteSize_ofList]
  constructor
  · intro cut
    rcases cut with ⟨length, size⟩
    exact
      ⟨text.take length, text.drop length,
        (List.take_append_drop length text).symm, size⟩
  · intro split
    rcases split with ⟨front, rest, whole, size⟩
    refine ⟨front.length, ?_⟩
    rw [whole, List.take_left]
    exact size

theorem fits_append (before part after : Text) :
    Fits (before ++ (part ++ after))
      ⟨before.byteSize, before.byteSize + part.byteSize⟩ where
  ordered := Nat.le_add_right _ _
  inside := by
    simp only [byteSize_append]
    omega
  start_boundary :=
    boundary_iff_exists_append.mpr ⟨before, part ++ after, rfl, rfl⟩
  stop_boundary :=
    boundary_iff_exists_append.mpr
      ⟨before ++ part, after, (List.append_assoc _ _ _).symm,
        (byteSize_append before part).symm⟩

/-- A span fits if it covers some of the characters. -/
theorem fits_iff_exists_append {text : Text} {span : Span} :
    text.Fits span ↔
      ∃ before part after,
        text = before ++ (part ++ after) ∧
          span = ⟨before.byteSize, before.byteSize + part.byteSize⟩ := by
  constructor
  · intro fits
    rcases boundary_iff_exists_append.mp fits.start_boundary with
      ⟨before, behind, whole, start⟩
    rcases boundary_iff_exists_append.mp fits.stop_boundary with
      ⟨front, after, wholeAgain, stop⟩
    have ordered := fits.ordered
    rw [start, stop] at ordered
    have beforePart : before <+: text := ⟨behind, whole.symm⟩
    have frontPart : front <+: text := ⟨after, wholeAgain.symm⟩
    rcases List.prefix_or_prefix_of_prefix beforePart frontPart with
      ⟨part, longer⟩ | ⟨more, longer⟩
    · refine ⟨before, part, after, ?_, ?_⟩
      · rw [wholeAgain, ← longer, List.append_assoc]
      · rw [← byteSize_append, longer, ← start, ← stop]
    · -- The front ends where the span begins, so the span is empty.
      have nothing : more = [] := by
        by_contra nonempty
        have positive := byteSize_pos nonempty
        rw [← longer, byteSize_append] at ordered
        omega
      rw [nothing, List.append_nil] at longer
      have empty : span.stop = span.start := by rw [stop, longer, start]
      refine ⟨before, [], behind, whole, ?_⟩
      rw [byteSize_nil, Nat.add_zero, ← start]
      exact congrArg (Span.mk span.start) empty
  · intro split
    rcases split with ⟨before, part, after, whole, same⟩
    rw [whole, same]
    exact fits_append before part after

theorem bytesIn_append (before part after : Text) :
    bytesIn (before ++ (part ++ after))
        ⟨before.byteSize, before.byteSize + part.byteSize⟩ =
      part.bytes := by
  rw [bytesIn, bytes_append, ← length_bytes before, List.drop_left,
    bytes_append, Nat.add_sub_cancel_left, ← length_bytes part,
    List.take_left]

/-- Where a span fits, the characters that it covers are its bytes. -/
theorem Fits.bytes_slice {text : Text} {span : Span}
    (fits : text.Fits span) : (text.slice span).bytes = text.bytesIn span := by
  rcases fits_iff_exists_append.mp fits with
    ⟨before, part, after, whole, same⟩
  rw [whole, same, slice_append, bytesIn_append]

theorem lt_of_mem_bytes {text : Text}
    (ascii : ∀ letter ∈ text, letter.val ≤ 127) {byte : UInt8}
    (member : byte ∈ text.bytes) : byte < 128 := by
  rcases List.mem_flatMap.mp member with ⟨letter, letterMember, encoded⟩
  have small := ascii letter letterMember
  rw [String.utf8EncodeChar_eq_singleton
      (Char.utf8Size_eq_one_iff.mpr small),
    List.mem_singleton] at encoded
  rw [encoded, UInt8.lt_iff_toNat_lt, UInt32.toNat_toUInt8]
  rw [UInt32.le_iff_toNat_le] at small
  exact
    Nat.lt_of_le_of_lt (Nat.mod_le _ _) (Nat.lt_succ_of_le small)

/-! ## Gaps -/

theorem byteSize_dropBytes_le (count : Nat) (text : Text) :
    (dropBytes count text).byteSize ≤ text.byteSize - count := by
  induction text generalizing count with
  | nil => cases count <;> exact Nat.zero_le _
  | cons head rest inductionHypothesis =>
      cases count with
      | zero => exact Nat.le_refl _
      | succ count =>
          have shorter :=
            inductionHypothesis (count + 1 - head.utf8Size)
          rw [dropBytes, byteSize_cons]
          omega

theorem takeBytes_of_le {count : Nat} {text : Text}
    (le : text.byteSize ≤ count) : takeBytes count text = text := by
  induction text generalizing count with
  | nil => cases count <;> rfl
  | cons head rest inductionHypothesis =>
      have positive := head.utf8Size_pos
      rw [byteSize_cons] at le
      cases count with
      | zero => omega
      | succ count =>
          rw [takeBytes, inductionHypothesis (by omega)]

theorem slice_to_end (text : Text) (cursor : Nat) :
    text.slice ⟨cursor, text.byteSize⟩ = text.dropBytes cursor :=
  takeBytes_of_le (byteSize_dropBytes_le cursor text)

/-- The spans before, between and after `spans` from byte `cursor` on, in a
text of `size` bytes. -/
def gapSpansFrom (size cursor : Nat) : List Span → List Span
  | [] => [⟨cursor, size⟩]
  | span :: spans =>
      ⟨cursor, span.start⟩ :: gapSpansFrom size span.stop spans

/-- The spans outside `spans`. -/
def gapSpans (text : Text) (spans : List Span) : List Span :=
  gapSpansFrom text.byteSize 0 spans

/-- The gaps are slices as well. -/
theorem map_slice_gapSpansFrom (text : Text) (cursor : Nat)
    (spans : List Span) :
    (gapSpansFrom text.byteSize cursor spans).map text.slice =
      text.gapsFrom cursor spans := by
  induction spans generalizing cursor with
  | nil =>
      rw [gapSpansFrom, List.map_singleton, slice_to_end, gapsFrom]
  | cons span spans inductionHypothesis =>
      rw [gapSpansFrom, List.map_cons, inductionHypothesis, gapsFrom]

namespace CutFrom

variable {spans : List Span} {text : Text}

theorem fits_gapSpansFrom (before : Text)
    (cut : CutFrom before.byteSize spans text) {gap : Span}
    (member :
      gap ∈ gapSpansFrom (before ++ text).byteSize before.byteSize spans) :
    (before ++ text).Fits gap := by
  generalize position : before.byteSize = reached at cut member
  induction cut generalizing before with
  | nil cursor rest =>
      rw [gapSpansFrom, List.mem_singleton] at member
      have last := fits_append before rest []
      rw [List.append_nil, ← byteSize_append] at last
      rw [member, ← position]
      exact last
  | @cons cursor front body later spans others inductionHypothesis =>
      rw [gapSpansFrom] at member
      rcases List.mem_cons.mp member with first | behind
      · rw [first, ← position]
        exact fits_append before front (body ++ later)
      · have whole :
            before ++ (front ++ (body ++ later)) =
              (before ++ (front ++ body)) ++ later := by
          simp only [List.append_assoc]
        have reached := byteSize_append_append before front body
        rw [position] at reached
        rw [whole] at behind ⊢
        exact
          inductionHypothesis (before ++ (front ++ body)) reached behind

end CutFrom

end Text

/-! ## Pieces of notation -/

namespace Kind

theorem ofChar_ne_prose_of_isDigit {letter : Char}
    (digit : letter.isDigit = true) : ofChar letter ≠ prose := by
  rw [ofChar_eq_digits_iff.mpr digit]
  decide

/-- What means something to notation is written in one byte. -/
theorem val_le_of_ofChar_ne_prose {letter : Char}
    (meaningful : ofChar letter ≠ prose) : letter.val ≤ 127 := by
  by_contra large
  have different : ∀ sign : Char, sign.val ≤ 127 → letter ≠ sign := by
    intro sign small same
    exact large (same ▸ small)
  have noDigit : letter.isDigit = false := by
    by_contra digit
    rw [Bool.not_eq_false, Char.isDigit, Bool.and_eq_true,
      decide_eq_true_eq, decide_eq_true_eq] at digit
    exact large (UInt32.le_trans digit.2 (by decide))
  apply meaningful
  exact
    ofChar_eq_prose_iff.mpr
      ⟨noDigit, different 'd' (by decide), different '+' (by decide),
        different 'b' (by decide)⟩

end Kind

theorem ofChar_ne_prose_of_mem_suffixText
    {sign letter : Char} {written : Option Text}
    (digits : ∀ {run}, written = some run → run.AllDigits ∧ run ≠ [])
    (meaningful : Kind.ofChar sign ≠ .prose)
    (member : letter ∈ suffixText sign written) :
    Kind.ofChar letter ≠ .prose := by
  cases written with
  | none => contradiction
  | some run =>
      rcases List.mem_cons.mp member with same | behind
      · exact same ▸ meaningful
      · exact Kind.ofChar_ne_prose_of_isDigit ((digits rfl).1 letter behind)

theorem Spelling.ofChar_ne_prose_of_mem_text {spelling : Spelling}
    {letter : Char} (member : letter ∈ spelling.text) :
    Kind.ofChar letter ≠ .prose := by
  rw [text_eq] at member
  rcases List.mem_append.mp member with front | suffixes
  · rcases List.mem_append.mp front with count | sides
    · exact
        Kind.ofChar_ne_prose_of_isDigit (spelling.count_digits letter count)
    · rcases List.mem_cons.mp sides with die | digit
      · rw [die]
        decide
      · exact
          Kind.ofChar_ne_prose_of_isDigit
            (spelling.sides_digits.1 letter digit)
  · rcases List.mem_append.mp suffixes with addend | brutal
    · exact
        ofChar_ne_prose_of_mem_suffixText spelling.addend_digits
          (by decide) addend
    · exact
        ofChar_ne_prose_of_mem_suffixText spelling.brutal_digits
          (by decide) brutal

theorem Spelling.text_ne_nil (spelling : Spelling) : spelling.text ≠ [] :=
  List.append_ne_nil_of_right_ne_nil spelling.count
    (List.cons_ne_nil 'd' _)

namespace Match

theorem exists_spelling_of_mem_searchFrom {start : Nat} {text : Text}
    {found : Match} (member : found ∈ searchFrom start text) :
    ∃ spelling : Spelling, found.text = spelling.text := by
  induction start, text using searchFrom.induct with
  | case1 start =>
      rw [searchFrom] at member
      contradiction
  | case2 start head rest front later matched inductionHypothesis =>
      rw [searchFrom_of_match? start matched] at member
      rcases List.mem_cons.mp member with first | behind
      · rcases Spelling.exists_of_match? matched with ⟨spelling, same, _⟩
        rw [first]
        exact ⟨spelling, same⟩
      · exact inductionHypothesis behind
  | case3 start head rest missing inductionHypothesis =>
      rw [searchFrom_cons start missing] at member
      exact inductionHypothesis member

end Match

namespace Occurrence

variable {text : Text} {found : Occurrence}

/-- An occurrence covers notation and has the numbers that are written
there. -/
theorem exists_spelling_of_mem_occurrences
    (member : found ∈ occurrences text) :
    ∃ (spelling : Spelling) (before after : Text),
      text = before ++ (spelling.text ++ after) ∧
        found.span =
          ⟨before.byteSize, before.byteSize + spelling.text.byteSize⟩ ∧
        spelling.Denotes found.expression := by
  rw [occurrences_eq] at member
  rcases List.mem_filterMap.mp member with
    ⟨⟨start, written⟩, isMatch, usable⟩
  rcases Match.exists_append_of_mem_searchFrom isMatch with
    ⟨before, after, whole, position⟩
  rcases Match.exists_spelling_of_mem_searchFrom isMatch with
    ⟨spelling, same⟩
  rw [Nat.zero_add] at position
  simp only at whole position same
  rw [same] at whole usable
  rw [position] at usable
  exact
    ⟨spelling, before, after, whole, Match.span_of_occurrence? usable,
      Match.denotes_of_occurrence? usable⟩

theorem start_lt_stop (member : found ∈ occurrences text) :
    found.span.start < found.span.stop := by
  rcases exists_spelling_of_mem_occurrences member with
    ⟨spelling, before, after, _, span, _⟩
  have positive := Text.byteSize_pos spelling.text_ne_nil
  rw [span]
  exact Nat.lt_add_of_pos_right positive

theorem fits_span (member : found ∈ occurrences text) :
    text.Fits found.span := by
  rcases exists_spelling_of_mem_occurrences member with
    ⟨spelling, before, after, whole, span, _⟩
  exact
    Text.fits_iff_exists_append.mpr
      ⟨before, spelling.text, after, whole, span⟩

theorem exists_spelling_slice (member : found ∈ occurrences text) :
    ∃ spelling : Spelling,
      text.slice found.span = spelling.text ∧
        spelling.Denotes found.expression := by
  rcases exists_spelling_of_mem_occurrences member with
    ⟨spelling, before, after, whole, span, denotes⟩
  refine ⟨spelling, ?_, denotes⟩
  rw [whole, span, Text.slice_append]

theorem lt_of_mem_bytesIn_span (member : found ∈ occurrences text)
    {byte : UInt8} (covered : byte ∈ text.bytesIn found.span) :
    byte < 128 := by
  rcases exists_spelling_slice member with ⟨spelling, written, _⟩
  rw [← (fits_span member).bytes_slice, written] at covered
  apply Text.lt_of_mem_bytes _ covered
  intro letter letterMember
  exact
    Kind.val_le_of_ofChar_ne_prose
      (Spelling.ofChar_ne_prose_of_mem_text letterMember)

/-- The text that an occurrence covers reads as its expression. -/
theorem read_slice_span (member : found ∈ occurrences text) :
    Expression.read (text.slice found.span) = .ok found.expression := by
  rcases exists_spelling_slice member with ⟨spelling, written, denotes⟩
  exact Expression.read_eq_ok_iff.mpr ⟨spelling, written.symm, denotes⟩

end Occurrence

/-- The spans of notation can be cut out of a text, and so can the gaps
between them, which are what is copied when the notation is replaced. A span is
not empty, covers one-byte characters only, and ends before the next begins.
What it covers, read by itself, is the same expression. -/
theorem fits_and_read_slice (text : Text) :
    (∀ found ∈ occurrences text,
      found.span.start < found.span.stop ∧ text.Fits found.span ∧
        (∀ byte ∈ text.bytesIn found.span, byte < 128) ∧
        Expression.read (text.slice found.span) = .ok found.expression) ∧
    ((occurrences text).map Occurrence.span).Pairwise
        (fun earlier later => earlier.stop ≤ later.start) ∧
    (∀ gap ∈ text.gapSpans ((occurrences text).map Occurrence.span),
      text.Fits gap) ∧
    ∀ {σ β : Type} (roll : Expression → RollM σ β) (total : β → Nat),
      RollM.replaceFrom roll total text 0 (occurrences text) =
        (fun values =>
          (Text.weave
            ((text.gapSpans ((occurrences text).map Occurrence.span)).map
              text.slice)
            (values.map fun value => Text.decimal (total value)),
            values)) <$>
          (expressions text).mapM roll := by
  have cut := cutFrom_occurrences text
  refine ⟨?_, cut.pairwise, ?_, ?_⟩
  · intro found member
    exact
      ⟨Occurrence.start_lt_stop member, Occurrence.fits_span member,
        fun _ => Occurrence.lt_of_mem_bytesIn_span member,
        Occurrence.read_slice_span member⟩
  · intro gap member
    exact Text.CutFrom.fits_gapSpansFrom [] cut member
  · intro σ β roll total
    rw [Text.gapSpans, Text.map_slice_gapSpansFrom, RollM.replaceFrom_eq]
    rfl

/-- In `Größe 2d6 — über` the notation begins at byte 8, though only six
characters stand before it. -/
theorem fits_behind_long_characters :
    (⟨⟨⟨2, by decide⟩, ⟨6, by decide⟩, 0, 0⟩, ⟨8, 11⟩⟩ : Occurrence) ∈
        occurrences "Größe 2d6 — über".toList ∧
      Text.Fits "Größe 2d6 — über".toList ⟨8, 11⟩ ∧
      Expression.read (Text.slice "Größe 2d6 — über".toList ⟨8, 11⟩) =
        .ok ⟨⟨2, by decide⟩, ⟨6, by decide⟩, 0, 0⟩ ∧
      (⟨11, 21⟩ : Span) ∈
        Text.gapSpans "Größe 2d6 — über".toList [⟨8, 11⟩] ∧
      Text.Fits "Größe 2d6 — über".toList ⟨11, 21⟩ := by
  have only :
      occurrences "Größe 2d6 — über".toList =
        [⟨⟨⟨2, by decide⟩, ⟨6, by decide⟩, 0, 0⟩, ⟨8, 11⟩⟩] := by
    decide +kernel
  have last :
      (⟨11, 21⟩ : Span) ∈
        Text.gapSpans "Größe 2d6 — über".toList [⟨8, 11⟩] := by
    decide +kernel
  rcases fits_and_read_slice "Größe 2d6 — über".toList with
    ⟨spans, _, gaps, _⟩
  rw [only] at spans gaps
  rcases spans _ List.mem_cons_self with ⟨_, fits, _, reads⟩
  rw [only]
  exact ⟨List.mem_cons_self, fits, reads, last, gaps _ last⟩

end DiceNotation
