import DiceNotation.Proofs.Markup

/-!
# Breakdowns scanned again

A breakdown is text, and may itself be scanned for notation. What is written
behind the notation of the roll begins with a space, which notation cannot take
in, and has no `d`, without which there is no notation
(`Match.searchFrom_eq_nil`). So the notation of the roll is the only match,
plain or in Markdown (`Roll.scansBack_breakdowns`).
-/

namespace DiceNotation

/-! ## Text without notation -/

theorem Spelling.die_mem_text (spelling : Spelling) :
    'd' ∈ spelling.text :=
  List.mem_append_right spelling.count List.mem_cons_self

namespace Match

/-- Every match has a `d` in it. -/
theorem searchFrom_eq_nil
    (start : Nat) {text : Text} (noDie : 'd' ∉ text) :
    searchFrom start text = [] := by
  rw [List.eq_nil_iff_forall_not_mem]
  intro found member
  obtain ⟨spelling, written⟩ := exists_spelling_of_mem_searchFrom member
  obtain ⟨before, after, whole, _⟩ :=
    exists_append_of_mem_searchFrom member
  apply noDie
  rw [whole, written]
  exact
    List.mem_append_right before
      (List.mem_append_left after spelling.die_mem_text)

end Match

/-! ## Breakdowns -/

/-- All that is found in the text is the notation of the roll, at the front,
and nothing else in it so much as matches. -/
structure Roll.ScansBack (roll : Roll) (text : Text) : Prop where
  all_eq : Match.all text = [⟨0, roll.expression.render⟩]
  occurrences_eq :
    occurrences text =
      [⟨roll.expression, ⟨0, roll.expression.render.byteSize⟩⟩]
  leading?_eq : Expression.leading? text = some roll.expression

namespace Style

variable {style : Style} {faces : Die → List Text}

theorem Writes.die_not_mem_behind
    (writes : style.Writes faces) (roll : Roll)
    (total : 'd' ∉ style.total roll.total) :
    'd' ∉ style.behind roll := by
  have dice : 'd' ∉ style.dice roll.dice :=
    writes.not_mem_dice (by decide) (by decide) roll.dice
  have signs : 'd' ∉ " (".toList ∧ 'd' ∉ ") = ".toList := by decide
  rw [behind]
  simp only [List.mem_append, not_or]
  exact ⟨⟨⟨signs.1, dice⟩, signs.2⟩, total⟩

theorem scansBack_of_die_not_mem
    {roll : Roll} (noDie : 'd' ∉ style.behind roll) :
    roll.ScansBack (style.roll roll) := by
  have stops := style.stops_behind roll
  have nothing :=
    Match.searchFrom_eq_nil roll.expression.render.byteSize noDie
  refine ⟨?_, ?_, style.leading?_roll roll⟩
  · rw [roll_eq, Expression.all_render_append _ stops, nothing]
  · rw [roll_eq, Expression.occurrences_render_append _ stops, nothing,
      List.filterMap_nil]

end Style

theorem Text.die_not_mem_decimal (number : Nat) :
    'd' ∉ Text.decimal number :=
  (Text.allDigits_decimal number).not_mem (by decide)

/-- Scanned again, a breakdown has the notation of its roll and no other: no
face, sign, mark or total is taken for notation or makes the notation in front
longer. -/
theorem Roll.scansBack_breakdowns (roll : Roll) :
    roll.ScansBack roll.render ∧
      roll.ScansBack (Style.markdown.roll roll) := by
  have digits := Text.die_not_mem_decimal roll.total
  have ticks : 'd' ∉ "`".toList := by decide
  constructor
  · exact
      Style.scansBack_of_die_not_mem
        (Style.writes_plain.die_not_mem_behind roll digits)
  · apply Style.scansBack_of_die_not_mem
    apply Style.writes_markdown.die_not_mem_behind
    rw [Style.markdown_total]
    simp only [List.mem_append, not_or]
    exact ⟨⟨ticks, digits⟩, ticks⟩

end DiceNotation
