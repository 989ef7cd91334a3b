import DiceNotation.Console.Input
import DiceNotation.Proofs.Boundaries
import Mathlib.Data.List.Basic

/-!
# Lines of encoded text

Bytes below 128 stand for themselves in UTF-8, so a line feed ends a line of
bytes just where it ends a line of characters. Input that ends with a line
feed can be read apart from what follows it (`Console.readLines_append`), and
lines that are written out are read back (`Console.readLines_writeLines`).
-/

namespace DiceNotation

/-! ## Single bytes -/

namespace Text

theorem toNat_eq_of_mem_utf8EncodeChar
    {letter : Char} {byte : UInt8} (small : byte < 128)
    (member : byte ∈ String.utf8EncodeChar letter) :
    letter.toNat = byte.toNat := by
  have value : letter.val.toNat = letter.toNat := rfl
  have bound : byte.toNat < 128 := UInt8.lt_iff_toNat_lt.mp small
  have remainder (number : Nat) (same : byte = UInt8.ofNat number) :
      byte.toNat = number % 256 := by
    rw [same]
    exact UInt8.toNat_ofNat'
  rw [String.utf8EncodeChar, value] at member
  grind

theorem mem_of_lineFeed_mem_bytes
    {text : Text} (member : Console.lineFeed ∈ text.bytes) :
    '\n' ∈ text := by
  obtain ⟨letter, letterMember, encoded⟩ := List.mem_flatMap.mp member
  have same := toNat_eq_of_mem_utf8EncodeChar (by decide) encoded
  have newline : letter = '\n' := Char.toNat_inj.mp same
  rw [← newline]
  exact letterMember

theorem bytes_cons (letter : Char) (rest : Text) :
    bytes (letter :: rest) = String.utf8EncodeChar letter ++ rest.bytes :=
  List.flatMap_cons

theorem bytes_singleton (letter : Char) :
    bytes [letter] = String.utf8EncodeChar letter :=
  List.flatMap_singleton _ letter

theorem bytes_concat (front : Text) (last : Char) :
    bytes (front ++ [last]) = front.bytes ++ String.utf8EncodeChar last := by
  rw [bytes_append, bytes_singleton]

/-- A text ends with a carriage return if its last byte is one. -/
theorem exists_append_of_getLast?_bytes
    {text : Text}
    (last : text.bytes.getLast? = some Console.carriageReturn) :
    ∃ front, text = front ++ ['\r'] := by
  rcases List.eq_nil_or_concat text with nothing | ⟨front, letter, whole⟩
  · rw [nothing] at last
    contradiction
  · rw [List.concat_eq_append] at whole
    rw [whole, bytes_concat,
      List.getLast?_append_of_ne_nil _ String.utf8EncodeChar_ne_nil] at last
    have same :=
      toNat_eq_of_mem_utf8EncodeChar (by decide)
        (List.mem_of_getLast? last)
    have isReturn : letter = '\r' := Char.toNat_inj.mp same
    exact ⟨front, isReturn ▸ whole⟩

theorem fromUTF8?_bytes (text : Text) :
    String.fromUTF8? text.bytes.toByteArray =
      some (String.ofList text) := by
  have encoded :
      (String.ofList text).toByteArray = text.bytes.toByteArray :=
    String.toByteArray_ofList
  rw [← encoded, String.fromUTF8?, dif_pos (String.isValidUTF8 _)]
  rfl

theorem exists_eq_bytes_of_isValidUTF8
    {input : List UInt8} (valid : input.toByteArray.IsValidUTF8) :
    ∃ text : Text, input = text.bytes := by
  rcases valid with ⟨text, same⟩
  exact ⟨text, List.toByteArray_inj.mp same⟩

end Text

namespace Console

/-! ## Lines of bytes -/

namespace RawLine

variable {front rest : List UInt8}

theorem all_cons (byte : UInt8) (rest : List UInt8) :
    all (byte :: rest) = addByte byte (all rest) := rfl

theorem addByte_lineFeed (lines : List RawLine) :
    addByte lineFeed lines = ⟨[], true⟩ :: lines := rfl

theorem addByte_of_ne {byte : UInt8} (different : byte ≠ lineFeed)
    (lines : List RawLine) :
    addByte byte lines =
      match lines with
      | [] => [⟨[byte], false⟩]
      | next :: others => ⟨byte :: next.bytes, next.ended⟩ :: others :=
  if_neg different

theorem addByte_ne_nil (byte : UInt8) (lines : List RawLine) :
    addByte byte lines ≠ [] := by
  by_cases ending : byte = lineFeed
  · rw [ending, addByte_lineFeed]
    exact List.cons_ne_nil _ _
  · rw [addByte_of_ne ending]
    cases lines with
    | nil => exact List.cons_ne_nil _ _
    | cons next others => exact List.cons_ne_nil _ _

theorem addByte_append
    {lines : List RawLine} (nonempty : lines ≠ []) (byte : UInt8)
    (more : List RawLine) :
    addByte byte (lines ++ more) = addByte byte lines ++ more := by
  by_cases ending : byte = lineFeed
  · rw [ending, addByte_lineFeed, addByte_lineFeed, List.cons_append]
  · rw [addByte_of_ne ending, addByte_of_ne ending]
    cases lines with
    | nil => contradiction
    | cons next others => rfl

/-- No line goes across a line feed. -/
theorem all_append
    (ends : front.getLast? = some lineFeed) (rest : List UInt8) :
    all (front ++ rest) = all front ++ all rest := by
  induction front with
  | nil => contradiction
  | cons byte front inductionHypothesis =>
      cases front with
      | nil =>
          rw [List.getLast?_singleton, Option.some.injEq] at ends
          rw [ends]
          rfl
      | cons second front =>
          rw [List.getLast?_cons_cons] at ends
          rw [List.cons_append, all_cons, inductionHypothesis ends,
            all_cons byte]
          exact addByte_append (addByte_ne_nil second (all front)) byte _

/-- Bytes without a line feed belong to the first line of what follows
them. -/
theorem all_append_of_not_mem
    (free : lineFeed ∉ front) (nonempty : front ≠ []) (rest : List UInt8) :
    all (front ++ rest) =
      match all rest with
      | [] => [⟨front, false⟩]
      | next :: others => ⟨front ++ next.bytes, next.ended⟩ :: others := by
  induction front with
  | nil => contradiction
  | cons byte front inductionHypothesis =>
      have noFeed : byte ≠ lineFeed := (List.ne_of_not_mem_cons free).symm
      have freeFront := List.not_mem_of_not_mem_cons free
      rw [List.cons_append, all_cons, addByte_of_ne noFeed]
      cases front with
      | nil => rfl
      | cons second front =>
          rw [inductionHypothesis freeFront (List.cons_ne_nil _ _)]
          cases all rest with
          | nil => rfl
          | cons next others => rfl

theorem all_line
    (free : lineFeed ∉ front) (rest : List UInt8) :
    all (front ++ lineFeed :: rest) = ⟨front, true⟩ :: all rest := by
  cases front with
  | nil => exact addByte_lineFeed (all rest)
  | cons byte front =>
      rw [all_append_of_not_mem free (List.cons_ne_nil _ _), all_cons,
        addByte_lineFeed]
      simp only [List.append_nil]

/-! ## Lines of characters -/

section

variable {source : Text} {line : RawLine}

/-- Every line of encoded text is encoded text. -/
theorem exists_bytes_of_mem_all
    (member : line ∈ all source.bytes) :
    ∃ letters : Text, line.bytes = letters.bytes := by
  induction source generalizing line with
  | nil => contradiction
  | cons letter source inductionHypothesis =>
      rw [Text.bytes_cons] at member
      by_cases newline : letter = '\n'
      · have encoded : String.utf8EncodeChar '\n' = [lineFeed] := by decide
        rw [newline, encoded, List.singleton_append, all_cons,
          addByte_lineFeed] at member
        rcases List.mem_cons.mp member with same | later
        · exact ⟨[], by rw [same]; rfl⟩
        · exact inductionHypothesis later
      · have free : lineFeed ∉ String.utf8EncodeChar letter := by
          rw [← Text.bytes_singleton]
          intro feed
          have inLetter := Text.mem_of_lineFeed_mem_bytes feed
          exact newline (List.mem_singleton.mp inLetter).symm
        rw [all_append_of_not_mem free String.utf8EncodeChar_ne_nil]
          at member
        cases lines : all (Text.bytes source) with
        | nil =>
            rw [lines, List.mem_singleton] at member
            exact ⟨[letter], by rw [member, Text.bytes_singleton]⟩
        | cons next others =>
            rw [lines] at member inductionHypothesis
            rcases List.mem_cons.mp member with same | later
            · obtain ⟨letters, nextBytes⟩ :=
                inductionHypothesis List.mem_cons_self
              exact
                ⟨letter :: letters,
                  by rw [Text.bytes_cons, ← nextBytes, same]⟩
            · exact
                inductionHypothesis (List.mem_cons_of_mem next later)

theorem exists_content_eq_bytes
    {letters : Text} (same : line.bytes = letters.bytes) :
    ∃ others : Text, line.content = others.bytes := by
  rw [content]
  by_cases returned :
      line.ended = true ∧ line.bytes.getLast? = some carriageReturn
  · rw [if_pos returned]
    obtain ⟨_, last⟩ := returned
    rw [same] at last ⊢
    obtain ⟨front, whole⟩ := Text.exists_append_of_getLast?_bytes last
    have encoded : String.utf8EncodeChar '\r' = [carriageReturn] := by
      decide
    refine ⟨front, ?_⟩
    rw [whole, Text.bytes_concat, encoded, List.dropLast_concat]
  · rw [if_neg returned]
    exact ⟨letters, same⟩

theorem text?_of_content_eq_bytes
    {letters : Text} (same : line.content = letters.bytes) :
    line.text? = some letters := by
  rw [text?, same, Text.fromUTF8?_bytes, Option.map_some,
    String.toList_ofList]

theorem isSome_text?_of_mem_all
    (member : line ∈ all source.bytes) : line.text?.isSome := by
  obtain ⟨letters, same⟩ := exists_bytes_of_mem_all member
  obtain ⟨others, content⟩ := exists_content_eq_bytes same
  rw [text?_of_content_eq_bytes content]
  rfl

/-- A line that does not end with a carriage return is read as it is. -/
theorem text?_of_getLast?_ne
    {letters : Text} (kept : letters.getLast? ≠ some '\r') (ended : Bool) :
    text? ⟨letters.bytes, ended⟩ = some letters := by
  apply text?_of_content_eq_bytes
  apply if_neg
  intro returned
  obtain ⟨front, whole⟩ :=
    Text.exists_append_of_getLast?_bytes returned.2
  apply kept
  rw [whole, List.getLast?_concat]

end

end RawLine

/-! ## Lines that are read -/

theorem presentFront_append
    {α : Type} {front : List (Option α)}
    (present : ∀ element ∈ front, element.isSome) (rest : List (Option α)) :
    presentFront (front ++ rest) =
      presentFront front ++ presentFront rest := by
  induction front with
  | nil => rfl
  | cons element front inductionHypothesis =>
      obtain ⟨here, others⟩ := List.forall_mem_cons.mp present
      obtain ⟨value, same⟩ := Option.isSome_iff_exists.mp here
      rw [same, List.cons_append, presentFront, presentFront,
        inductionHypothesis others]
      rfl

/-- Input that ends with a line feed is read apart from what follows it. -/
theorem readLines_append
    {front : List UInt8} (valid : front.toByteArray.IsValidUTF8)
    (ends : front.getLast? = some lineFeed) (rest : List UInt8) :
    readLines (front ++ rest) = readLines front ++ readLines rest := by
  obtain ⟨text, same⟩ := Text.exists_eq_bytes_of_isValidUTF8 valid
  rw [readLines, RawLine.all_append ends, List.map_append]
  apply presentFront_append
  intro element member
  obtain ⟨line, inFront, read⟩ := List.mem_map.mp member
  rw [same] at inFront
  rw [← read]
  exact RawLine.isSome_text?_of_mem_all inFront

/-- The lines, each with a line feed. -/
def writeLines (lines : List Text) : List UInt8 :=
  lines.flatMap fun line => line.bytes ++ [lineFeed]

theorem writeLines_cons (line : Text) (lines : List Text) :
    writeLines (line :: lines) =
      line.bytes ++ lineFeed :: writeLines lines := by
  rw [writeLines, List.flatMap_cons, List.append_assoc,
    List.singleton_append]
  rfl

/-- Lines that are written out are read back. -/
theorem readLines_writeLines
    {lines : List Text} (free : ∀ line ∈ lines, '\n' ∉ line)
    (kept : ∀ line ∈ lines, line.getLast? ≠ some '\r') :
    readLines (writeLines lines) = lines := by
  induction lines with
  | nil => rfl
  | cons line lines inductionHypothesis =>
      obtain ⟨freeLine, freeOthers⟩ := List.forall_mem_cons.mp free
      obtain ⟨keptLine, keptOthers⟩ := List.forall_mem_cons.mp kept
      have freeBytes : lineFeed ∉ line.bytes := by
        intro feed
        exact freeLine (Text.mem_of_lineFeed_mem_bytes feed)
      have later := inductionHypothesis freeOthers keptOthers
      rw [writeLines_cons, readLines, RawLine.all_line freeBytes,
        List.map_cons, RawLine.text?_of_getLast?_ne keptLine true,
        presentFront]
      exact congrArg (List.cons line) later

end Console

end DiceNotation
