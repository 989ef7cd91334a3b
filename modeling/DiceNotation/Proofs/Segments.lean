import DiceNotation.Text.Basic
import Mathlib.Algebra.Ring.Nat
import Mathlib.Data.List.Basic

/-!
# Joined texts

Texts joined by a separator can be taken apart again if none of them contains
the first character of the separator (`segments_intercalate`). For lists of
texts that are not empty this is so even if there is nothing to join
(`items_intercalate`).
-/

namespace DiceNotation.Text

/-! ## Texts with a separator between them -/

section

variable {separator : Text} {parts : List Text}

/-- Every part but the first is written with the separator before it. -/
theorem intercalate_cons (separator first : Text) (others : List Text) :
    separator.intercalate (first :: others) =
      first ++ others.flatMap (separator ++ ·) := by
  induction others generalizing first with
  | nil =>
      rw [List.intercalate_singleton, List.flatMap_nil, List.append_nil]
  | cons next others inductionHypothesis =>
      rw [List.intercalate_cons_cons, inductionHypothesis,
        List.flatMap_cons, List.append_assoc, List.append_assoc]

theorem forall_mem_intercalate
    {holds : Char → Prop} (between : ∀ letter ∈ separator, holds letter)
    (each : ∀ part ∈ parts, ∀ letter ∈ part, holds letter) :
    ∀ letter ∈ separator.intercalate parts, holds letter := by
  cases parts with
  | nil => exact List.forall_mem_nil holds
  | cons first others =>
      obtain ⟨here, later⟩ := List.forall_mem_cons.mp each
      rw [intercalate_cons, List.forall_mem_append]
      refine ⟨here, ?_⟩
      intro letter member
      obtain ⟨part, partMember, inside⟩ := List.mem_flatMap.mp member
      rcases List.mem_append.mp inside with separating | written
      · exact between letter separating
      · exact later part partMember letter written

theorem intercalate_eq_nil_iff
    (nonempty : ∀ part ∈ parts, part ≠ []) :
    separator.intercalate parts = [] ↔ parts = [] := by
  cases parts with
  | nil => simp only [List.intercalate_nil]
  | cons first others =>
      have written := nonempty first List.mem_cons_self
      rw [intercalate_cons]
      simp only [List.append_eq_nil_iff, written, false_and, reduceCtorEq]

theorem filter_intercalate (select : Char → Bool) :
    (separator.intercalate parts).filter select =
      List.intercalate (separator.filter select)
        (parts.map (List.filter select)) := by
  cases parts with
  | nil => rfl
  | cons first others =>
      rw [intercalate_cons, List.map_cons, intercalate_cons,
        List.filter_append, List.filter_flatMap, List.flatMap_map]
      simp only [List.filter_append]

theorem count_intercalate
    {letter : Char} (absent : letter ∉ separator) :
    (separator.intercalate parts).count letter =
      (parts.map (List.count letter)).sum := by
  cases parts with
  | nil => rfl
  | cons first others =>
      have nothing := List.count_eq_zero_of_not_mem absent
      rw [intercalate_cons, List.count_append, List.count_flatMap,
        List.map_cons, List.sum_cons]
      simp only [Function.comp_def, List.count_append, nothing,
        Nat.zero_add]

end

/-! ## Taking texts apart -/

/-- The parts of a text between separators, one more than there are
separators. -/
def segments (separator : Text) : Text → List Text
  | [] => [[]]
  | head :: rest =>
      if separator <+: head :: rest then
        [] :: segments separator (rest.drop (separator.length - 1))
      else
        (segments separator rest).modifyHead (head :: ·)
termination_by text => text.length
decreasing_by
  · rw [List.length_drop, List.length_cons]
    omega
  · exact Nat.lt_succ_self _

/-- The texts of a list that is written with separators; nothing is written
for the empty list. -/
def items (separator text : Text) : List Text :=
  if text = [] then [] else segments separator text

/-- What stands between the first opening parenthesis and the next closing
one. -/
def parenthesized (text : Text) : Text :=
  ((text.dropWhile (· ≠ '(')).drop 1).takeWhile (· ≠ ')')

section

variable {mark : Char} {tail : Text}

theorem segments_separator_append (rest : Text) :
    segments (mark :: tail) (mark :: tail ++ rest) =
      [] :: segments (mark :: tail) rest := by
  have front : mark :: tail <+: mark :: (tail ++ rest) :=
    List.prefix_append (mark :: tail) rest
  rw [List.cons_append, segments, if_pos front, List.length_cons,
    Nat.add_sub_cancel, List.drop_left]

theorem segments_cons_of_ne
    {head : Char} (different : head ≠ mark) (rest : Text) :
    segments (mark :: tail) (head :: rest) =
      (segments (mark :: tail) rest).modifyHead (head :: ·) := by
  have noFront : ¬ mark :: tail <+: head :: rest := by
    rw [List.cons_prefix_cons]
    exact fun front => different front.1.symm
  rw [segments, if_neg noFront]

/-- Text without the first character of the separator only makes the first
segment longer. -/
theorem segments_append
    {front : Text} (absent : mark ∉ front) (rest : Text) :
    segments (mark :: tail) (front ++ rest) =
      (segments (mark :: tail) rest).modifyHead (front ++ ·) := by
  induction front with
  | nil => exact List.modifyHead_id.symm ▸ rfl
  | cons head others inductionHypothesis =>
      obtain ⟨different, later⟩ := not_or.mp (mt List.mem_cons.mpr absent)
      rw [List.cons_append, segments_cons_of_ne (Ne.symm different),
        inductionHypothesis later, List.modifyHead_modifyHead]
      rfl

/-- The segments of joined texts are the texts, if none of them has the first
character of the separator in it. -/
theorem segments_intercalate
    {parts : List Text} (absent : ∀ part ∈ parts, mark ∉ part)
    (nonempty : parts ≠ []) :
    segments (mark :: tail) (List.intercalate (mark :: tail) parts) =
      parts := by
  induction parts with
  | nil => contradiction
  | cons part others inductionHypothesis =>
      obtain ⟨here, later⟩ := List.forall_mem_cons.mp absent
      cases others with
      | nil =>
          have alone :
              segments (mark :: tail) (part ++ []) = [part ++ []] := by
            rw [segments_append here, segments, List.modifyHead_cons]
          rw [List.append_nil] at alone
          rw [List.intercalate_singleton, alone]
      | cons next others =>
          rw [List.intercalate_cons_cons, List.append_assoc,
            segments_append here, segments_separator_append,
            inductionHypothesis later (List.cons_ne_nil next others),
            List.modifyHead_cons, List.append_nil]

/-- The texts may also be none at all, if none of them is empty. -/
theorem items_intercalate
    {parts : List Text} (absent : ∀ part ∈ parts, mark ∉ part)
    (nonempty : ∀ part ∈ parts, part ≠ []) :
    items (mark :: tail) (List.intercalate (mark :: tail) parts) =
      parts := by
  have onlyEmpty :
      List.intercalate (mark :: tail) parts = [] ↔ parts = [] :=
    intercalate_eq_nil_iff nonempty
  by_cases empty : parts = []
  · rw [items, if_pos (onlyEmpty.mpr empty), empty]
  · rw [items, if_neg (onlyEmpty.not.mpr empty),
      segments_intercalate absent empty]

end

/-- What stands in parentheses is found behind text without an opening one. -/
theorem parenthesized_append
    {front inner : Text} (rest : Text) (noOpening : '(' ∉ front)
    (noClosing : ')' ∉ inner) :
    parenthesized (front ++ '(' :: (inner ++ ')' :: rest)) = inner := by
  have passed : ∀ letter ∈ front, decide (letter ≠ '(') = true :=
    fun letter member =>
      decide_eq_true fun same => noOpening (same ▸ member)
  have taken : ∀ letter ∈ inner, decide (letter ≠ ')') = true :=
    fun letter member =>
      decide_eq_true fun same => noClosing (same ▸ member)
  rw [parenthesized, List.dropWhile_append_of_pos passed,
    List.dropWhile_cons_of_neg (by simp), List.drop_one, List.tail_cons,
    List.takeWhile_append_of_pos taken,
    List.takeWhile_cons_of_neg (by simp), List.append_nil]

end DiceNotation.Text
