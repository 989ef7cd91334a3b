import DiceNotation.Proofs.Breakdown
import Mathlib.Algebra.BigOperators.Ring.List
import Mathlib.Algebra.Ring.Nat
import Mathlib.Data.List.Forall2

/-!
# Breakdowns in Markdown

Markdown only adds marks to a breakdown: without its stars, tildes and
backticks it is the plain one. The marks are counted face by face, four tildes
for a face that was rolled again and four stars for a one or the highest face
of its die (`markdown_roll`).
-/

namespace DiceNotation

/-! ## Marks -/

def backtick : Char := '\x60'

/-- The characters that Markdown adds. -/
def marks : Text := ['*', '~', backtick]

namespace Text

/-- The text without the marks of Markdown. -/
def unmarked (text : Text) : Text :=
  text.filter (· ∉ marks)

/-- The text is wrapped in double tildes. -/
def StruckThrough (text : Text) : Prop :=
  ∃ inner : Text, text = "~~".toList ++ inner ++ "~~".toList

theorem unmarked_append (front rest : Text) :
    unmarked (front ++ rest) = unmarked front ++ unmarked rest :=
  List.filter_append front rest

theorem unmarked_of_not_mem
    {text : Text} (absent : ∀ mark ∈ marks, mark ∉ text) :
    text.unmarked = text := by
  apply List.filter_eq_self.mpr
  intro letter member
  exact decide_eq_true fun mark => absent letter mark member

/-- What means something to notation is no mark. -/
theorem not_mem_of_ofChar_ne_prose
    {text : Text} (meaningful : ∀ letter ∈ text, Kind.ofChar letter ≠ .prose) :
    ∀ mark ∈ marks, mark ∉ text := by
  intro mark isMark member
  have prose : ∀ mark ∈ marks, Kind.ofChar mark = .prose :=
    List.all_iff_forall_prop.mp (by decide)
  exact meaningful mark member (prose mark isMark)

theorem marks_not_mem_decimal (number : Nat) :
    ∀ mark ∈ marks, mark ∉ decimal number :=
  not_mem_of_ofChar_ne_prose fun _ member =>
    Kind.ofChar_ne_prose_of_isDigit (isDigit_of_mem_decimal member)

end Text

theorem Expression.marks_not_mem_render (expression : Expression) :
    ∀ mark ∈ marks, mark ∉ expression.render := by
  apply Text.not_mem_of_ofChar_ne_prose
  rw [← text_spelling]
  exact fun _ => Spelling.ofChar_ne_prose_of_mem_text

/-! ## Faces -/

namespace Style

section

variable (sides : Positive) (face : UInt32)

theorem letters_emphasized :
    ∀ letter ∈ emphasized sides face,
      letter.isDigit = true ∨ letter = '*' := by
  have stars :
      ∀ letter ∈ "**".toList, letter.isDigit = true ∨ letter = '*' :=
    List.all_iff_forall_prop.mp (by decide)
  have digits :
      ∀ letter ∈ Text.decimal face.toNat,
        letter.isDigit = true ∨ letter = '*' :=
    fun _ member => Or.inl (Text.isDigit_of_mem_decimal member)
  rw [emphasized]
  split
  · rw [List.forall_mem_append, List.forall_mem_append]
    exact ⟨⟨stars, digits⟩, stars⟩
  · exact digits

theorem tilde_not_mem_emphasized : '~' ∉ emphasized sides face := by
  intro member
  rcases letters_emphasized sides face '~' member with digit | star
  · contradiction
  · contradiction

theorem emphasized_ne_nil : emphasized sides face ≠ [] := by
  rw [emphasized]
  split
  · simp
  · exact Text.decimal_ne_nil face.toNat

/-- Emphasis is nothing but marks. -/
theorem unmarked_emphasized :
    (emphasized sides face).unmarked = Text.decimal face.toNat := by
  have digits :=
    Text.unmarked_of_not_mem (Text.marks_not_mem_decimal face.toNat)
  have stars : Text.unmarked "**".toList = [] := by decide
  rw [emphasized]
  split
  · rw [Text.unmarked_append, Text.unmarked_append, digits, stars,
      List.nil_append, List.append_nil]
  · exact digits

theorem count_star_emphasized :
    (emphasized sides face).count '*' =
      if face = 1 ∨ face = sides.val then 4 else 0 := by
  have digits : (Text.decimal face.toNat).count '*' = 0 :=
    List.count_eq_zero_of_not_mem
      (Text.marks_not_mem_decimal face.toNat '*' (by decide))
  rw [emphasized]
  split
  · rw [List.count_append, List.count_append, digits]
    rfl
  · exact digits

/-- A face that was rolled again. -/
def struck : Text :=
  "~~".toList ++ emphasized sides face ++ "~~".toList

theorem unmarked_struck :
    (struck sides face).unmarked = Text.decimal face.toNat := by
  have tildes : Text.unmarked "~~".toList = [] := by decide
  rw [struck, Text.unmarked_append, Text.unmarked_append, tildes,
    unmarked_emphasized, List.nil_append, List.append_nil]

theorem count_tilde_struck : (struck sides face).count '~' = 4 := by
  have inner : (emphasized sides face).count '~' = 0 :=
    List.count_eq_zero_of_not_mem (tilde_not_mem_emphasized sides face)
  rw [struck, List.count_append, List.count_append, inner]
  rfl

theorem count_star_struck :
    (struck sides face).count '*' =
      if face = 1 ∨ face = sides.val then 4 else 0 := by
  have tildes : List.count '*' "~~".toList = 0 := by decide
  rw [struck, List.count_append, List.count_append, tildes,
    count_star_emphasized, Nat.zero_add, Nat.add_zero]

end

/-- The faces of a die in Markdown. -/
def markdownFaces (die : Die) : List Text :=
  die.rejected.map (struck die.sides) ++ [emphasized die.sides die.kept]

theorem letters_markdownFaces (die : Die) :
    ∀ text ∈ markdownFaces die, ∀ letter ∈ text,
      letter.isDigit = true ∨ letter ∈ "*~".toList := by
  have tildes :
      ∀ letter ∈ "~~".toList,
        letter.isDigit = true ∨ letter ∈ "*~".toList :=
    List.all_iff_forall_prop.mp (by decide)
  have inside (face : UInt32) :
      ∀ letter ∈ emphasized die.sides face,
        letter.isDigit = true ∨ letter ∈ "*~".toList := by
    intro letter member
    apply (letters_emphasized die.sides face letter member).imp_right
    rintro rfl
    decide
  rw [markdownFaces, List.forall_mem_append, List.forall_mem_map,
    List.forall_mem_singleton]
  refine ⟨?_, inside die.kept⟩
  intro face _
  rw [struck, List.forall_mem_append, List.forall_mem_append]
  exact ⟨⟨tildes, inside face⟩, tildes⟩

/-- Marked faces take the places of plain faces in the layout. -/
theorem writes_markdown : markdown.Writes markdownFaces where
  dice_eq _ := rfl
  die_eq _ := rfl
  faces_ne_nil die :=
    List.append_ne_nil_of_right_ne_nil _ (List.cons_ne_nil _ _)
  face_ne_nil die := by
    rw [markdownFaces, List.forall_mem_append, List.forall_mem_map,
      List.forall_mem_singleton]
    refine ⟨?_, emphasized_ne_nil die.sides die.kept⟩
    intro face _
    exact List.append_ne_nil_of_right_ne_nil _ (by decide)
  letters := letters_markdownFaces

theorem map_unmarked_markdownFaces (die : Die) :
    (markdownFaces die).map Text.unmarked =
      die.faces.map fun face => Text.decimal face.toNat := by
  rw [markdownFaces, Die.faces, List.map_append, List.map_append,
    List.map_map]
  simp only [Function.comp_def, unmarked_struck, List.map_singleton,
    unmarked_emphasized]

/-! ## Dice -/

theorem unmarked_markdown_die (die : Die) :
    (markdown.die die).unmarked = plain.die die := by
  have arrow_unmarked : arrow.filter (· ∉ marks) = arrow := by decide
  rw [writes_markdown.die_eq, writes_plain.die_eq,
    ← map_unmarked_markdownFaces, Text.unmarked, Text.filter_intercalate,
    arrow_unmarked]
  rfl

theorem count_tilde_markdown_die (die : Die) :
    (markdown.die die).count '~' = 4 * die.rerolls := by
  have kept : (emphasized die.sides die.kept).count '~' = 0 :=
    List.count_eq_zero_of_not_mem (tilde_not_mem_emphasized _ _)
  rw [writes_markdown.die_eq, Text.count_intercalate (by decide),
    markdownFaces, List.map_append, List.map_map, List.sum_append]
  simp only [Function.comp_def, count_tilde_struck, List.map_const',
    List.sum_replicate_nat, List.map_singleton, kept, List.sum_singleton,
    Nat.add_zero]
  exact Nat.mul_comm _ _

end Style

/-- How many of the faces are ones or the highest of the die. -/
def Die.extremes (die : Die) : Nat :=
  die.faces.countP fun face => face = 1 ∨ face = die.sides.val

namespace Style

theorem sum_map_ite_four (sides : Positive) (faces : List UInt32) :
    (faces.map fun face =>
        if face = 1 ∨ face = sides.val then 4 else 0).sum =
      4 * faces.countP fun face => face = 1 ∨ face = sides.val := by
  induction faces with
  | nil => rfl
  | cons face faces inductionHypothesis =>
      rw [List.map_cons, List.sum_cons, inductionHypothesis,
        List.countP_cons]
      by_cases extreme : face = 1 ∨ face = sides.val
      · rw [if_pos extreme, if_pos (decide_eq_true extreme)]
        omega
      · rw [if_neg extreme, if_neg (by simpa using extreme)]
        omega

theorem count_star_markdown_die (die : Die) :
    (markdown.die die).count '*' = 4 * die.extremes := by
  rw [writes_markdown.die_eq, Text.count_intercalate (by decide),
    Die.extremes, ← sum_map_ite_four, markdownFaces, Die.faces,
    List.map_append, List.map_append, List.map_map]
  simp only [Function.comp_def, count_star_struck, count_star_emphasized,
    List.map_singleton]

theorem count_backtick_markdown_die (die : Die) :
    (markdown.die die).count backtick = 0 :=
  List.count_eq_zero_of_not_mem
    (writes_markdown.not_mem_die (by decide) (by decide) die)

end Style

/-- The parts of the text between arrows are the faces of the die. All of them
are struck through but the last, which is the kept face. -/
structure Die.StruckIn (die : Die) (text : Text) : Prop where
  faces :
    (Text.segments Style.arrow text).map Text.unmarked =
      die.faces.map fun face => Text.decimal face.toNat
  struck :
    ∀ face ∈ (Text.segments Style.arrow text).dropLast,
      face.StruckThrough
  kept :
    ∃ face : Text,
      (Text.segments Style.arrow text).getLast? = some face ∧
        ¬ face.StruckThrough ∧
        face.unmarked = Text.decimal die.kept.toNat

namespace Style

/-- The faces of a die are struck through, all but the kept one. -/
theorem struckIn_markdown_die (die : Die) :
    die.StruckIn (markdown.die die) := by
  have segments := writes_markdown.segments_die die
  constructor
  · rw [segments]
    exact map_unmarked_markdownFaces die
  · rw [segments, markdownFaces, List.dropLast_concat]
    intro text member
    obtain ⟨face, _, rfl⟩ := List.mem_map.mp member
    exact ⟨emphasized die.sides face, rfl⟩
  · rw [segments, markdownFaces, List.getLast?_concat]
    refine
      ⟨emphasized die.sides die.kept, rfl, ?_,
        unmarked_emphasized die.sides die.kept⟩
    intro through
    obtain ⟨inner, same⟩ := through
    apply tilde_not_mem_emphasized die.sides die.kept
    rw [same]
    exact List.mem_append_right _ (by decide)

/-! ## Rolls -/

/-- What is not in the notation of a roll and not in the signs around its dice
is counted in its dice and in its total. -/
theorem count_markdown_roll
    {mark : Char} (isMark : mark ∈ marks) (roll : Roll) :
    (markdown.roll roll).count mark =
      (roll.dice.map fun die => (markdown.die die).count mark).sum +
        (markdown.total roll.total).count mark := by
  have front : roll.expression.render.count mark = 0 :=
    List.count_eq_zero_of_not_mem
      (roll.expression.marks_not_mem_render mark isMark)
  have absent :
      ∀ mark ∈ marks,
        mark ∉ comma ∧ " (".toList.count mark = 0 ∧
          ") = ".toList.count mark = 0 :=
    List.all_iff_forall_prop.mp (by decide)
  obtain ⟨comma_absent, opening, closing⟩ := absent mark isMark
  rw [Style.roll, List.count_append, List.count_append, List.count_append,
    List.count_append, front, opening, closing,
    writes_markdown.dice_eq, Text.count_intercalate comma_absent,
    List.map_map, Nat.zero_add, Nat.add_zero]
  rfl

theorem markdown_total (total : Nat) :
    markdown.total total =
      "`".toList ++ Text.decimal total ++ "`".toList :=
  rfl

theorem count_markdown_total
    {mark : Char} (isMark : mark ∈ marks) (total : Nat) :
    (markdown.total total).count mark =
      if mark = backtick then 2 else 0 := by
  have digits : (Text.decimal total).count mark = 0 :=
    List.count_eq_zero_of_not_mem
      (Text.marks_not_mem_decimal total mark isMark)
  have ticks :
      ∀ mark ∈ marks,
        "`".toList.count mark + "`".toList.count mark =
          if mark = backtick then 2 else 0 :=
    List.all_iff_forall_prop.mp (by decide)
  rw [markdown_total, List.count_append, List.count_append, digits, Nat.add_zero]
  exact ticks mark isMark

theorem unmarked_markdown_total (total : Nat) :
    (markdown.total total).unmarked = plain.total total := by
  have ticks : Text.unmarked "`".toList = [] := by decide
  rw [markdown_total, Text.unmarked_append, Text.unmarked_append, ticks,
    Text.unmarked_of_not_mem (Text.marks_not_mem_decimal total),
    List.nil_append, List.append_nil]
  rfl

theorem unmarked_markdown_dice (dice : List Die) :
    (markdown.dice dice).unmarked = plain.dice dice := by
  have comma_unmarked : comma.filter (· ∉ marks) = comma := by decide
  rw [writes_markdown.dice_eq, writes_plain.dice_eq, Text.unmarked,
    Text.filter_intercalate, comma_unmarked, List.map_map]
  congr 2
  funext die
  exact unmarked_markdown_die die

/-- Marks taken away, a marked roll is the plain one. -/
theorem unmarked_markdown_roll (roll : Roll) :
    (markdown.roll roll).unmarked = plain.roll roll := by
  have signs :
      Text.unmarked " (".toList = " (".toList ∧
        Text.unmarked ") = ".toList = ") = ".toList := by
    decide
  rw [Style.roll, Style.roll, Text.unmarked_append, Text.unmarked_append,
    Text.unmarked_append, Text.unmarked_append,
    Text.unmarked_of_not_mem roll.expression.marks_not_mem_render,
    signs.1, signs.2, unmarked_markdown_dice, unmarked_markdown_total]

end Style

/-- Without its marks, a breakdown in Markdown is the plain one. The marks are
four tildes for each face that was rolled again, four stars for each face that
is a one or the highest of its die, and two backticks. Of the faces of a die,
which stand between arrows, all are struck through but the last, and that is
the face that was kept. -/
theorem markdown_roll (roll : Roll) :
    (Style.markdown.roll roll).unmarked = Style.plain.roll roll ∧
      (Style.markdown.roll roll).count '~' = 4 * roll.rerolls ∧
      (Style.markdown.roll roll).count '*' =
        4 * (roll.dice.map Die.extremes).sum ∧
      (Style.markdown.roll roll).count backtick = 2 ∧
      List.Forall₂ Die.StruckIn roll.dice
        (Text.items Style.comma
          (Style.markdown.roll roll).parenthesized) := by
  refine ⟨Style.unmarked_markdown_roll roll, ?_, ?_, ?_, ?_⟩
  · rw [Style.count_markdown_roll (by decide),
      Style.count_markdown_total (by decide), Roll.rerolls,
      List.length_flatMap]
    simp only [Style.count_tilde_markdown_die, Die.rerolls,
      List.sum_map_mul_left]
    rfl
  · rw [Style.count_markdown_roll (by decide),
      Style.count_markdown_total (by decide)]
    simp only [Style.count_star_markdown_die, List.sum_map_mul_left]
    rfl
  · rw [Style.count_markdown_roll (by decide),
      Style.count_markdown_total (by decide)]
    simp only [Style.count_backtick_markdown_die, List.map_const',
      List.sum_replicate_nat]
    rfl
  · rw [Style.writes_markdown.items_roll, List.forall₂_map_right_iff,
      List.forall₂_same]
    intro die _
    exact Style.struckIn_markdown_die die

end DiceNotation
