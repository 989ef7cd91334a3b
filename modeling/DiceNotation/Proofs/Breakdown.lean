import DiceNotation.Breakdown
import DiceNotation.Proofs.Boundaries
import DiceNotation.Proofs.History
import DiceNotation.Proofs.RoundTrip
import DiceNotation.Proofs.Segments
import Mathlib.Data.Bool.AllAny

/-!
# Reading breakdowns

A breakdown can be taken apart: the notation is read at its front, the dice
stand between commas in the parentheses (`Style.Writes.items_roll`), and the
faces of a die between arrows (`Style.Writes.segments_die`). So a plain
breakdown tells the expression and every face (`Roll.render_eq_iff`).
-/

namespace DiceNotation

theorem Text.decimal_injective {first second : Nat}
    (same : Text.decimal first = Text.decimal second) : first = second := by
  have values := congrArg Text.value same
  rwa [Text.value_decimal, Text.value_decimal] at values

namespace Style

def comma : Text := [',', ' ']

def arrow : Text := [' ', '-', '>', ' ']

/-- The style puts commas between dice and arrows between the faces of a die,
which it writes as `faces` says: with digits, stars and tildes. -/
structure Writes (style : Style) (faces : Die → List Text) : Prop where
  dice_eq (dice : List Die) :
    style.dice dice = comma.intercalate (dice.map style.die)
  die_eq (die : Die) : style.die die = arrow.intercalate (faces die)
  faces_ne_nil (die : Die) : faces die ≠ []
  face_ne_nil (die : Die) : ∀ face ∈ faces die, face ≠ []
  letters (die : Die) :
    ∀ face ∈ faces die, ∀ letter ∈ face,
      letter.isDigit = true ∨ letter ∈ "*~".toList

namespace Writes

variable {style : Style} {faces : Die → List Text}
  (writes : style.Writes faces)
include writes

theorem segments_die (die : Die) :
    Text.segments arrow (style.die die) = faces die := by
  rw [writes.die_eq]
  apply Text.segments_intercalate _ (writes.faces_ne_nil die)
  intro face member blank
  rcases writes.letters die face member ' ' blank with digit | mark
  · contradiction
  · contradiction

theorem letters_die (die : Die) :
    ∀ letter ∈ style.die die,
      letter.isDigit = true ∨ letter ∈ "*~ ->".toList := by
  rw [writes.die_eq]
  apply Text.forall_mem_intercalate
  · exact List.all_iff_forall_prop.mp (by decide)
  · intro face member letter inside
    rcases writes.letters die face member letter inside with digit | mark
    · exact Or.inl digit
    · exact Or.inr (List.mem_append_left " ->".toList mark)

theorem not_mem_die
    {letter : Char} (noDigit : letter.isDigit ≠ true)
    (noSign : letter ∉ "*~ ->".toList) (die : Die) :
    letter ∉ style.die die :=
  fun member =>
    (writes.letters_die die letter member).elim noDigit noSign

theorem die_ne_nil (die : Die) : style.die die ≠ [] := by
  rw [writes.die_eq, ne_eq,
    Text.intercalate_eq_nil_iff (writes.face_ne_nil die)]
  exact writes.faces_ne_nil die

theorem letters_dice (dice : List Die) :
    ∀ letter ∈ style.dice dice,
      letter.isDigit = true ∨ letter ∈ "*~ ->,".toList := by
  rw [writes.dice_eq]
  apply Text.forall_mem_intercalate
  · exact List.all_iff_forall_prop.mp (by decide)
  · intro text textMember letter inside
    obtain ⟨die, _, rfl⟩ := List.mem_map.mp textMember
    rcases writes.letters_die die letter inside with digit | sign
    · exact Or.inl digit
    · exact Or.inr (List.mem_append_left ",".toList sign)

theorem not_mem_dice
    {letter : Char} (noDigit : letter.isDigit ≠ true)
    (noSign : letter ∉ "*~ ->,".toList) (dice : List Die) :
    letter ∉ style.dice dice :=
  fun member =>
    (writes.letters_dice dice letter member).elim noDigit noSign

/-- The dice of a roll are found between the commas in the parentheses. -/
theorem items_roll (roll : Roll) :
    Text.items comma (style.roll roll).parenthesized =
      roll.dice.map style.die := by
  have noOpening : '(' ∉ roll.expression.render ++ [' '] := by
    rw [← Expression.text_spelling, List.mem_append, not_or]
    refine ⟨?_, by decide⟩
    intro member
    exact Spelling.ofChar_ne_prose_of_mem_text member (by decide)
  have noClosing : ')' ∉ style.dice roll.dice :=
    writes.not_mem_dice (by decide) (by decide) roll.dice
  have whole :
      style.roll roll =
        (roll.expression.render ++ [' ']) ++
          '(' :: (style.dice roll.dice ++
            ')' :: (" = ".toList ++ style.total roll.total)) := by
    simp [Style.roll]
  rw [whole, Text.parenthesized_append _ noOpening noClosing,
    writes.dice_eq]
  apply Text.items_intercalate
  · intro text textMember
    obtain ⟨die, _, rfl⟩ := List.mem_map.mp textMember
    exact writes.not_mem_die (by decide) (by decide) die
  · intro text textMember
    obtain ⟨die, _, rfl⟩ := List.mem_map.mp textMember
    exact writes.die_ne_nil die

end Writes

/-! ## The notation of a breakdown -/

section

variable (style : Style) (roll : Roll)

/-- What a breakdown has behind the notation. -/
def behind : Text :=
  " (".toList ++ style.dice roll.dice ++ ") = ".toList ++
    style.total roll.total

theorem roll_eq :
    style.roll roll = roll.expression.render ++ style.behind roll := by
  simp [Style.roll, behind]

theorem stops_behind : (style.behind roll).Stops := by
  intro letter member
  cases member
  decide

/-- The notation of a roll is read back from its breakdown. -/
theorem leading?_roll :
    Expression.leading? (style.roll roll) = some roll.expression := by
  rw [roll_eq]
  exact
    Expression.leading?_eq_some_iff.mpr
      ⟨roll.expression.spelling,
        roll.expression.leads_render_append (style.stops_behind roll),
        roll.expression.denotes_spelling⟩

end

/-! ## Plain breakdowns -/

theorem writes_plain :
    plain.Writes fun die =>
      die.faces.map fun face => Text.decimal face.toNat where
  dice_eq _ := rfl
  die_eq _ := rfl
  faces_ne_nil die := by simp [Die.faces]
  face_ne_nil die := by
    intro text member
    obtain ⟨face, _, rfl⟩ := List.mem_map.mp member
    exact Text.decimal_ne_nil face.toNat
  letters die := by
    intro text member letter inside
    obtain ⟨face, _, rfl⟩ := List.mem_map.mp member
    exact Or.inl (Text.isDigit_of_mem_decimal inside)

end Style

theorem Die.map_faces_eq_of_map_plain_eq {first second : List Die}
    (same : first.map Style.plain.die = second.map Style.plain.die) :
    first.map Die.faces = second.map Die.faces := by
  have digits :
      Function.Injective fun face : UInt32 => Text.decimal face.toNat := by
    intro face other written
    exact UInt32.toNat_inj.mp (Text.decimal_injective written)
  have faces := congrArg (List.map (Text.segments Style.arrow)) same
  simp only [List.map_map, Function.comp_def,
    Style.writes_plain.segments_die] at faces
  apply List.map_injective_iff.mpr (List.map_injective_iff.mpr digits)
  simpa only [List.map_map, Function.comp_def] using faces

namespace Roll

/-- The total of a roll by the faces of its dice. -/
theorem total_eq (roll : Roll) :
    roll.total =
      sumFaces ((roll.dice.map Die.faces).filterMap List.getLast?) +
        roll.expression.addend.toNat := by
  rw [total, List.filterMap_map]
  simp only [Function.comp_def, Die.getLast?_faces, List.filterMap_eq_map']

/-- Rolls have the same plain breakdown if they are of the same expression and
their dice, as many and in the same order, showed the same faces. How many
sides the dice have makes no difference. -/
theorem render_eq_iff {first second : Roll} :
    first.render = second.render ↔
      first.expression = second.expression ∧
        first.dice.map Die.faces = second.dice.map Die.faces := by
  constructor
  · intro same
    have expressions := congrArg Expression.leading? same
    have dice :=
      congrArg (fun text => Text.items Style.comma (Text.parenthesized text))
        same
    simp only [render, Style.leading?_roll, Option.some.injEq]
      at expressions
    simp only [render, Style.writes_plain.items_roll] at dice
    exact ⟨expressions, Die.map_faces_eq_of_map_plain_eq dice⟩
  · intro same
    obtain ⟨expressions, faces⟩ := same
    have dice : Style.plain.dice first.dice = Style.plain.dice second.dice := by
      have written :=
        congrArg
          (List.map fun faces =>
            Style.arrow.intercalate
              (faces.map fun face : UInt32 => Text.decimal face.toNat))
          faces
      rw [List.map_map, List.map_map] at written
      rw [Style.writes_plain.dice_eq, Style.writes_plain.dice_eq]
      exact congrArg (List.intercalate Style.comma) written
    have totals : first.total = second.total := by
      rw [total_eq, total_eq, faces, expressions]
    rw [render, render, Style.roll, Style.roll, dice, totals, expressions]

end Roll

end DiceNotation
