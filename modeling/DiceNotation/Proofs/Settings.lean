import DiceNotation.Console.Budget
import DiceNotation.Proofs.Spelling
import Mathlib.Data.List.DropRight

/-!
# Settings of the budget

White space around a setting can be cut off and put back
(`Text.exists_append_trim`, `Text.trim_append`), and a run of digits is read
unless it is worth too much. So the budget is the number that the setting
writes out, or else the default (`Console.configures_iff`).
-/

namespace DiceNotation

/-! ## White space at the ends -/

namespace Text

/-- Only white space. -/
def AllBlank (text : Text) : Prop :=
  ∀ letter ∈ text, isBlank letter = true

variable {before core behind text : Text}

theorem not_isBlank_of_isDigit
    {letter : Char} (digit : letter.isDigit = true) :
    isBlank letter = false := by
  have range : 48 ≤ letter.toNat ∧ letter.toNat ≤ 57 := by
    rw [Char.isDigit, Bool.and_eq_true, decide_eq_true_eq,
      decide_eq_true_eq, ge_iff_le, UInt32.le_iff_toNat_le,
      UInt32.le_iff_toNat_le] at digit
    exact digit
  simp only [isBlank, blankRanges, List.any_cons, List.any_nil,
    Bool.or_false, Bool.or_eq_false_iff, Bool.and_eq_false_iff,
    decide_eq_false_iff_not]
  omega

/-- Trimming the end takes away white space and nothing else. -/
theorem exists_append_trimEnd (text : Text) :
    ∃ behind, AllBlank behind ∧ text = trimEnd text ++ behind :=
  ⟨text.rtakeWhile isBlank, fun _ => List.mem_rtakeWhile_imp,
    List.rdropWhile_append_rtakeWhile.symm⟩

/-- Trimming takes away white space and nothing else. -/
theorem exists_append_trim (text : Text) :
    ∃ before behind,
      AllBlank before ∧ AllBlank behind ∧
        text = before ++ (trim text ++ behind) := by
  obtain ⟨behind, blankBehind, cut⟩ :=
    exists_append_trimEnd (trimStart text)
  refine ⟨text.takeWhile isBlank, behind, ?_, blankBehind, ?_⟩
  · exact fun letter member => List.mem_takeWhile_imp member
  · rw [trim, ← cut, trimStart, List.takeWhile_append_dropWhile]

theorem trimStart_append
    (blank : AllBlank before) (text : Text) :
    trimStart (before ++ text) = trimStart text :=
  List.dropWhile_append_of_pos blank

theorem trimEnd_append (text : Text) (blank : AllBlank behind) :
    trimEnd (text ++ behind) = trimEnd text := by
  have blankReversed : ∀ letter ∈ behind.reverse, isBlank letter = true :=
    fun letter member => blank letter (List.mem_reverse.mp member)
  rw [trimEnd, List.reverse_append,
    List.dropWhile_append_of_pos blankReversed, trimEnd]

/-- White space around a text without white space is taken away. -/
theorem trim_append
    (blankBefore : AllBlank before) (blankBehind : AllBlank behind)
    (nonempty : core ≠ [])
    (solid : ∀ letter ∈ core, isBlank letter = false) :
    trim (before ++ (core ++ behind)) = core := by
  have sameStart : trimStart (core ++ behind) = core ++ behind := by
    cases core with
    | nil => contradiction
    | cons head rest =>
        have first := solid head List.mem_cons_self
        exact
          List.dropWhile_cons_of_neg (Bool.eq_false_iff.mp first)
  have sameEnd : trimEnd core = core := by
    apply List.rdropWhile_eq_self_iff.mpr
    intro present
    have last := solid _ (List.getLast_mem present)
    exact Bool.eq_false_iff.mp last
  rw [trim, trimStart_append blankBefore, sameStart,
    trimEnd_append core blankBehind, sameEnd]

end Text

namespace Console

/-! ## Numbers written out -/

/-- The setting writes out this positive number of 64 bits: its digits, with
or without a plus sign before them and white space around both. -/
def WritesOut (setting : Text) (number : Nat) : Prop :=
  ∃ before sign digits behind : Text,
    setting = before ++ (sign ++ digits ++ behind) ∧
      before.AllBlank ∧ behind.AllBlank ∧ (sign = [] ∨ sign = ['+']) ∧
      digits ≠ [] ∧ digits.AllDigits ∧ Text.value digits = number ∧
      1 ≤ number ∧ number < UInt64.size

/-- The number of dice that a block may roll under a setting: what the setting
writes out, and 1000 if it is missing or writes out nothing. -/
def Configures (setting : Option Text) (number : Nat) : Prop :=
  (∃ text ∈ setting, WritesOut text number) ∨
    ((∀ text ∈ setting, ∀ other, ¬ WritesOut text other) ∧ number = 1000)

/-- A text is cut into a plus sign, if it begins with one, and the rest. -/
def CutSign (sign digits : Text) : Prop :=
  sign = ['+'] ∨ sign = [] ∧ digits.head? ≠ some '+'

theorem exists_cutSign (text : Text) :
    ∃ sign digits, text = sign ++ digits ∧ CutSign sign digits := by
  by_cases plus : text.head? = some '+'
  · obtain ⟨digits, same⟩ := List.head?_eq_some_iff.mp plus
    exact ⟨['+'], digits, same, Or.inl rfl⟩
  · exact ⟨[], text, rfl, Or.inr ⟨rfl, plus⟩⟩

theorem cutSign_of_allDigits
    {sign digits : Text} (signed : sign = [] ∨ sign = ['+'])
    (allDigits : digits.AllDigits) : CutSign sign digits := by
  rcases signed with none | plus
  · refine Or.inr ⟨none, ?_⟩
    intro plus
    have digit := allDigits '+' (List.mem_of_head? plus)
    contradiction
  · exact Or.inl plus

section

variable {setting : Text}

theorem writtenBudget?_of_trim_eq
    {sign digits : Text} (trimmed : Text.trim setting = sign ++ digits)
    (cut : CutSign sign digits) :
    writtenBudget? setting =
      if digits ≠ [] ∧ digits.all Char.isDigit then
        (Text.word64? digits).filter fun budget => 0 < budget
      else
        none := by
  rw [writtenBudget?, trimmed]
  rcases cut with plus | ⟨none, different⟩
  · rw [plus]
    rfl
  · rw [none, List.nil_append]
    split
    · contradiction
    · rfl

theorem WritesOut.writtenBudget?_eq
    {number : Nat} (written : WritesOut setting number) :
    writtenBudget? setting = some (UInt64.ofNat number) := by
  obtain ⟨before, sign, digits, behind, whole, blankBefore, blankBehind,
    signed, nonempty, allDigits, value, positive, small⟩ := written
  have solid : ∀ letter ∈ sign ++ digits, Text.isBlank letter = false := by
    rw [List.forall_mem_append]
    refine
      ⟨?_, fun letter member =>
        Text.not_isBlank_of_isDigit (allDigits letter member)⟩
    rcases signed with none | plus
    · rw [none]
      exact List.forall_mem_nil _
    · rw [plus]
      exact List.forall_mem_singleton.mpr (by decide)
  have trimmed : Text.trim setting = sign ++ digits := by
    rw [whole]
    exact
      Text.trim_append blankBefore blankBehind
        (List.append_ne_nil_of_right_ne_nil sign nonempty) solid
  have read : Text.word64? digits = some (UInt64.ofNat number) := by
    rw [Text.word64?_eq, value, if_pos small]
  have kept : 0 < UInt64.ofNat number := by
    rw [UInt64.lt_iff_toNat_lt, UInt64.toNat_ofNat_of_lt' small]
    exact positive
  rw [writtenBudget?_of_trim_eq trimmed
      (cutSign_of_allDigits signed allDigits),
    if_pos ⟨nonempty, List.all_eq_true.mpr allDigits⟩, read,
    Option.filter_some, if_pos (decide_eq_true kept)]

theorem writesOut_of_writtenBudget?
    {budget : UInt64} (written : writtenBudget? setting = some budget) :
    WritesOut setting budget.toNat := by
  obtain ⟨sign, digits, trimmed, cut⟩ := exists_cutSign (Text.trim setting)
  obtain ⟨before, behind, blankBefore, blankBehind, whole⟩ :=
    Text.exists_append_trim setting
  rw [writtenBudget?_of_trim_eq trimmed cut,
    Option.ite_none_right_eq_some, Option.filter_eq_some_iff]
    at written
  obtain ⟨⟨nonempty, allDigits⟩, read, positive⟩ := written
  rw [Text.word64?_eq, Option.ite_none_right_eq_some] at read
  obtain ⟨small, word⟩ := read
  have value : Text.value digits = budget.toNat := by
    rw [← Option.some.inj word, UInt64.toNat_ofNat_of_lt' small]
  have signed : sign = [] ∨ sign = ['+'] := by
    rcases cut with plus | ⟨none, _⟩
    · exact Or.inr plus
    · exact Or.inl none
  rw [trimmed] at whole
  exact
    ⟨before, sign, digits, behind, whole, blankBefore, blankBehind,
      signed, nonempty, List.all_eq_true.mp allDigits, value,
      UInt64.lt_iff_toNat_lt.mp (of_decide_eq_true positive),
      budget.toNat_lt_size⟩

theorem writesOut_iff {number : Nat} :
    WritesOut setting number ↔
      (writtenBudget? setting).map UInt64.toNat = some number := by
  constructor
  · intro written
    have small : number < UInt64.size := by
      obtain ⟨_, _, _, _, _, _, _, _, _, _, _, _, small⟩ := written
      exact small
    rw [written.writtenBudget?_eq, Option.map_some,
      UInt64.toNat_ofNat_of_lt' small]
  · intro same
    obtain ⟨budget, written, rfl⟩ := Option.map_eq_some_iff.mp same
    exact writesOut_of_writtenBudget? written

end

/-- The budget is the number for which the setting stands, and no other
number is. -/
theorem configures_iff {setting : Option Text} {number : Nat} :
    Configures setting number ↔ number = (budget setting).toNat := by
  cases setting with
  | none => simp [Configures, budget, defaultBudget]
  | some text =>
      simp only [Configures, Option.mem_some_iff, exists_eq_left',
        forall_eq', writesOut_iff, budget, Option.bind_some]
      cases writtenBudget? text with
      | none => simp [defaultBudget]
      | some word => simp [eq_comm]

end Console

end DiceNotation
