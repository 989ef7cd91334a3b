import DiceNotation.Occurrence
import DiceNotation.Proofs.Spelling
import Mathlib.Data.List.Pairwise

/-!
# Searching a text for notation

The dice pattern is searched for character by character, from left to right,
each search beginning where the last match ended. The numbers of a match are
read from its text, and a match with a number that cannot be used is dropped.
-/

namespace DiceNotation

/-- Characters that the dice pattern matches, and the byte at which they
begin. -/
structure Match where
  start : Nat
  text : Text
deriving DecidableEq, Repr

namespace Match

/-- The digits behind the first `sign`, none if there is no sign. -/
def digitsBehind (sign : Char) (text : Text) : Text :=
  ((text.dropWhile (· != sign)).drop 1).takeWhile Char.isDigit

def count (found : Match) : Nat :=
  let digits := found.text.takeWhile Char.isDigit
  if digits = [] then 1 else Text.value digits

def sides (found : Match) : Nat :=
  Text.value (digitsBehind 'd' found.text)

def addend (found : Match) : Nat :=
  Text.value (digitsBehind '+' found.text)

def brutal (found : Match) : Nat :=
  Text.value (digitsBehind 'b' found.text)

def span (found : Match) : Span :=
  ⟨found.start, found.start + found.text.byteSize⟩

/-- Every number is a 32-bit word, and neither the count nor the number of
sides is zero. -/
def Usable (found : Match) : Prop :=
  (0 < found.count ∧ found.count < UInt32.size) ∧
    (0 < found.sides ∧ found.sides < UInt32.size) ∧
    found.addend < UInt32.size ∧ found.brutal < UInt32.size

instance (found : Match) : Decidable found.Usable :=
  inferInstanceAs
    (Decidable
      ((0 < found.count ∧ found.count < UInt32.size) ∧
        (0 < found.sides ∧ found.sides < UInt32.size) ∧
          found.addend < UInt32.size ∧ found.brutal < UInt32.size))

/-- Every match in a text that begins at byte `start`, leftmost first and as
long as the pattern's preferences make it. -/
def searchFrom (start : Nat) : Text → List Match
  | [] => []
  | head :: rest =>
      match _found : Pattern.dice.match? (head :: rest) with
      | some (front, later) =>
          ⟨start, front⟩ :: searchFrom (start + front.byteSize) later
      | none => searchFrom (start + head.utf8Size) rest
termination_by text => text.length
decreasing_by
  · exact Pattern.length_lt_of_match?_dice ‹_›
  · exact Nat.lt_succ_self _

def all (text : Text) : List Match := searchFrom 0 text

/-- The nonzero word for a number. -/
def positive (number : Nat) (usable : 0 < number ∧ number < UInt32.size) :
    Positive :=
  ⟨UInt32.ofNat number, by
    rw [UInt32.lt_iff_toNat_lt, UInt32.toNat_ofNat_of_lt' usable.2]
    exact usable.1⟩

/-- The use of notation that the match stands for, if its numbers can be
used. -/
def occurrence? (found : Match) : Option Occurrence :=
  if usable : found.Usable then
    some
      ⟨⟨positive found.count usable.1, positive found.sides usable.2.1,
        UInt32.ofNat found.addend, UInt32.ofNat found.brutal⟩,
        found.span⟩
  else
    none

theorem searchFrom_of_match?
    {text front later : Text} (start : Nat)
    (matched : Pattern.dice.match? text = some (front, later)) :
    searchFrom start text =
      ⟨start, front⟩ :: searchFrom (start + front.byteSize) later := by
  cases text with
  | nil => contradiction
  | cons head rest =>
      rw [searchFrom]
      split
      · next found =>
          rw [matched] at found
          cases found
          rfl
      · next missing =>
          rw [matched] at missing
          contradiction

theorem searchFrom_cons
    {head : Char} {rest : Text} (start : Nat)
    (missing : Pattern.dice.match? (head :: rest) = none) :
    searchFrom start (head :: rest) =
      searchFrom (start + head.utf8Size) rest := by
  rw [searchFrom]
  split
  · next found =>
      rw [missing] at found
      contradiction
  · rfl

/-- A search runs through characters at none of which a match begins. -/
theorem searchFrom_append
    {front rest : Text} (start : Nat)
    (missing :
      ∀ {later : Text}, later <:+ front → later ≠ [] →
        Pattern.dice.match? (later ++ rest) = none) :
    searchFrom start (front ++ rest) =
      searchFrom (start + front.byteSize) rest := by
  induction front generalizing start with
  | nil => rfl
  | cons head others inductionHypothesis =>
      have here :=
        missing List.suffix_rfl (List.cons_ne_nil head others)
      rw [List.cons_append] at here
      rw [List.cons_append, searchFrom_cons start here,
        inductionHypothesis, Text.byteSize_cons, Nat.add_assoc]
      intro later ending nonempty
      exact missing (ending.trans (List.suffix_cons head others)) nonempty

/-- Digits in front of a text in which no match begins. -/
theorem searchFrom_digits_append
    {digits rest : Text} (start : Nat) (allDigits : digits.AllDigits)
    (ends : Kind.digits.EndsBefore rest)
    (missing : Pattern.dice.match? rest = none) :
    searchFrom start (digits ++ rest) =
      searchFrom (start + digits.byteSize) rest := by
  apply searchFrom_append
  intro later ending _
  have laterDigits : later.AllDigits := fun letter member =>
    allDigits letter (ending.subset member)
  rw [Pattern.match?_dice_append laterDigits ends, missing]
  rfl

/-- The matches are cut out of the text one after the other. -/
theorem cutFrom_searchFrom (start : Nat) (text : Text) :
    Text.CutFrom start ((searchFrom start text).map span) text := by
  induction start, text using searchFrom.induct with
  | case1 start =>
      rw [searchFrom]
      exact Text.CutFrom.nil start []
  | case2 start head rest front later matched inductionHypothesis =>
      rw [searchFrom_of_match? start matched,
        ← Pattern.append_of_match? matched]
      exact Text.CutFrom.cons start [] front inductionHypothesis
  | case3 start head rest missing inductionHypothesis =>
      rw [searchFrom_cons start missing]
      exact Text.CutFrom.prepend [head] inductionHypothesis

theorem exists_append_of_mem_searchFrom
    {start : Nat} {text : Text} {found : Match}
    (member : found ∈ searchFrom start text) :
    ∃ before after,
      text = before ++ (found.text ++ after) ∧
        found.start = start + before.byteSize := by
  induction start, text using searchFrom.induct with
  | case1 start =>
      rw [searchFrom] at member
      contradiction
  | case2 start head rest front later matched inductionHypothesis =>
      have whole := Pattern.append_of_match? matched
      rw [searchFrom_of_match? start matched] at member
      rcases List.mem_cons.mp member with rfl | behind
      · exact ⟨[], later, whole.symm, rfl⟩
      · obtain ⟨before, after, rfl, position⟩ := inductionHypothesis behind
        refine ⟨front ++ before, after, ?_, ?_⟩
        · rw [← whole, List.append_assoc]
        · rw [position, Text.byteSize_append, Nat.add_assoc]
  | case3 start head rest missing inductionHypothesis =>
      rw [searchFrom_cons start missing] at member
      obtain ⟨before, after, rfl, position⟩ := inductionHypothesis member
      refine ⟨head :: before, after, rfl, ?_⟩
      rw [position, Text.byteSize_cons, Nat.add_assoc]

/-- A match covers the text that it matched. -/
theorem slice_of_mem_all
    {text : Text} {found : Match} (member : found ∈ all text) :
    text.slice found.span = found.text := by
  obtain ⟨before, after, rfl, position⟩ :=
    exists_append_of_mem_searchFrom member
  rw [Nat.zero_add] at position
  rw [span, position]
  exact Text.slice_append before found.text after

/-- The matches share no byte. -/
def Apart (first second : Match) : Prop :=
  first.span.stop ≤ second.span.start ∨
    second.span.stop ≤ first.span.start

instance : Std.Symm Apart := ⟨fun _ _ => Or.symm⟩

/-- Two matches never share a byte. -/
theorem apart_of_mem_all
    {text : Text} {first second : Match} (firstMember : first ∈ all text)
    (secondMember : second ∈ all text) (different : first ≠ second) :
    Apart first second := by
  have ordered :=
    List.pairwise_map.mp (cutFrom_searchFrom 0 text).pairwise
  have apart : (all text).Pairwise Apart := ordered.imp Or.inl
  exact apart.forall firstMember secondMember different

theorem span_of_occurrence?
    {found : Match} {occurrence : Occurrence}
    (usable : found.occurrence? = some occurrence) :
    occurrence.span = found.span := by
  rw [occurrence?] at usable
  split at usable
  · cases usable
    rfl
  · contradiction

theorem map_span_sublist (matched : List Match) :
    List.Sublist
      ((matched.filterMap occurrence?).map Occurrence.span)
      (matched.map span) := by
  induction matched with
  | nil => exact List.Sublist.slnil
  | cons first others inductionHypothesis =>
      cases result : first.occurrence? with
      | none =>
          rw [List.filterMap_cons_none result, List.map_cons]
          exact inductionHypothesis.cons first.span
      | some occurrence =>
          rw [List.filterMap_cons_some result, List.map_cons,
            List.map_cons, span_of_occurrence? result]
          exact inductionHypothesis.cons_cons first.span

/-- The digits behind a sign are the whole run. -/
theorem digitsBehind_append
    {sign : Char} {front digits rest : Text} (absent : sign ∉ front)
    (allDigits : digits.AllDigits)
    (ends : Kind.digits.EndsBefore rest) :
    digitsBehind sign (front ++ sign :: (digits ++ rest)) = digits := by
  have passed : ∀ letter ∈ front, (letter != sign) = true := by
    intro letter member
    exact bne_iff_ne.mpr fun same => absent (same ▸ member)
  rw [digitsBehind, List.dropWhile_append_of_pos passed,
    List.dropWhile_cons_of_neg (by simp), List.drop_one, List.tail_cons,
    Text.takeWhile_isDigit allDigits ends]

theorem digitsBehind_of_not_mem
    {sign : Char} {text : Text} (absent : sign ∉ text) :
    digitsBehind sign text = [] := by
  have passed : ∀ letter ∈ text, (letter != sign) = true := by
    intro letter member
    exact bne_iff_ne.mpr fun same => absent (same ▸ member)
  have nothing : (text ++ []).dropWhile (· != sign) = [] :=
    List.dropWhile_append_of_pos passed
  rw [List.append_nil] at nothing
  rw [digitsBehind, nothing]
  rfl

section

variable (start : Nat) (spelling : Spelling)

theorem count_spelling :
    (⟨start, spelling.text⟩ : Match).count =
      if spelling.count = [] then 1 else Text.value spelling.count := by
  have ends :=
    Text.digits_endsBefore_die (spelling.sides ++ spelling.suffixes)
  rw [count, Spelling.text,
    Text.takeWhile_isDigit spelling.count_digits ends]

theorem sides_spelling :
    (⟨start, spelling.text⟩ : Match).sides =
      Text.value spelling.sides := by
  rw [sides, Spelling.text,
    digitsBehind_append (spelling.count_digits.not_mem (by decide))
      spelling.sides_digits.1 spelling.digits_endsBefore_suffixes]

theorem addend_spelling :
    (⟨start, spelling.text⟩ : Match).addend =
      Text.value (spelling.addend.getD []) := by
  have front :=
    spelling.not_mem_count_sides '+' (by decide) (by decide)
  rw [addend, spelling.text_eq]
  cases written : spelling.addend with
  | none =>
      have absent :=
        not_mem_suffixText 'b' '+' spelling.brutal_digits (by decide)
          (by decide)
      rw [digitsBehind_of_not_mem]
      · rfl
      · exact fun member =>
          (List.mem_append.mp member).elim front absent
  | some run =>
      have ends :=
        digits_endsBefore_suffixText 'b' (by decide) spelling.brutal
      rw [suffixText, List.cons_append,
        digitsBehind_append front (spelling.addend_digits written).1 ends]
      rfl

theorem brutal_spelling :
    (⟨start, spelling.text⟩ : Match).brutal =
      Text.value (spelling.brutal.getD []) := by
  have front :
      'b' ∉ (spelling.count ++ 'd' :: spelling.sides) ++
        suffixText '+' spelling.addend := by
    have initial :=
      spelling.not_mem_count_sides 'b' (by decide) (by decide)
    have absent :=
      not_mem_suffixText '+' 'b' spelling.addend_digits (by decide)
        (by decide)
    exact fun member =>
      (List.mem_append.mp member).elim initial absent
  rw [brutal, spelling.text_eq, ← List.append_assoc]
  cases written : spelling.brutal with
  | none =>
      rw [suffixText, List.append_nil, digitsBehind_of_not_mem front]
      rfl
  | some run =>
      have digits := (spelling.brutal_digits written).1
      have ends : Kind.digits.EndsBefore [] := by simp [Kind.EndsBefore]
      have whole := digitsBehind_append front digits ends
      rw [List.append_nil] at whole
      exact congrArg Text.value whole

end

end Match

end DiceNotation
