import DiceNotation.Text.Basic

/-!
# Greedy patterns

Regular patterns over characters. All ways to match the front of a text are
listed in the order of preference: a repetition would rather go on than stop,
an optional part would rather be there than not.
-/

namespace DiceNotation

inductive Pattern where
  | letter (accepts : Char → Bool)
  | many (accepts : Char → Bool)
  | both (first second : Pattern)
  | optional (body : Pattern)

namespace Pattern

/-- The fronts that consist of accepted characters only, longest first, each
with the rest of the text. -/
def runs (accepts : Char → Bool) : Text → List (Text × Text)
  | [] => [([], [])]
  | head :: rest =>
      if accepts head then
        (runs accepts rest).map
            (fun later => (head :: later.1, later.2)) ++
          [([], head :: rest)]
      else
        [([], head :: rest)]

/-- The fronts that match, most preferred first, each with the rest of the
text. -/
def fronts : Pattern → Text → List (Text × Text)
  | letter _, [] => []
  | letter accepts, head :: rest =>
      if accepts head then [([head], rest)] else []
  | many accepts, text => runs accepts text
  | both first second, text =>
      (fronts first text).flatMap fun front =>
        (fronts second front.2).map fun back =>
          (front.1 ++ back.1, back.2)
  | optional body, text => fronts body text ++ [([], text)]

/-- The preferred match at the front of a text, with the rest of the text. -/
def match? (pattern : Pattern) (text : Text) : Option (Text × Text) :=
  (pattern.fronts text).head?

theorem append_of_mem_runs
    {accepts : Char → Bool} {text front rest : Text}
    (member : (front, rest) ∈ runs accepts text) :
    front ++ rest = text := by
  induction text generalizing front with
  | nil => simp_all [runs]
  | cons head later inductionHypothesis =>
      rw [runs] at member
      split at member
      · rcases List.mem_append.mp member with longer | shortest
        · obtain ⟨⟨tail, behind⟩, tailMember, same⟩ :=
            List.mem_map.mp longer
          cases same
          rw [List.cons_append, inductionHypothesis tailMember]
        · cases List.mem_singleton.mp shortest
          rfl
      · cases List.mem_singleton.mp member
        rfl

theorem append_of_mem_fronts
    {pattern : Pattern} {text front rest : Text}
    (member : (front, rest) ∈ pattern.fronts text) :
    front ++ rest = text := by
  induction pattern generalizing text front rest with
  | letter accepts =>
      cases text with
      | nil => simp [fronts] at member
      | cons head later =>
          rw [fronts] at member
          split at member
          · cases List.mem_singleton.mp member
            rfl
          · contradiction
  | many accepts => exact append_of_mem_runs member
  | both first second firstHypothesis secondHypothesis =>
      obtain ⟨⟨initial, middle⟩, initialMember, backs⟩ :=
        List.mem_flatMap.mp member
      obtain ⟨⟨final, behind⟩, finalMember, same⟩ :=
        List.mem_map.mp backs
      cases same
      rw [List.append_assoc, secondHypothesis finalMember,
        firstHypothesis initialMember]
  | optional body bodyHypothesis =>
      rcases List.mem_append.mp member with present | absent
      · exact bodyHypothesis present
      · cases List.mem_singleton.mp absent
        rfl

/-- A match and the rest are the text. -/
theorem append_of_match?
    {pattern : Pattern} {text front rest : Text}
    (found : pattern.match? text = some (front, rest)) :
    front ++ rest = text :=
  append_of_mem_fronts (List.mem_of_mem_head? found)

theorem match?_many (accepts : Char → Bool) (text : Text) :
    (many accepts).match? text =
      some (text.takeWhile accepts, text.dropWhile accepts) := by
  unfold match? fronts
  induction text with
  | nil => rfl
  | cons head rest inductionHypothesis =>
      by_cases accepted : accepts head
      · rw [runs, if_pos accepted, List.head?_append, List.head?_map,
          inductionHypothesis]
        simp [accepted]
      · simp [runs, accepted]

theorem match?_optional (body : Pattern) (text : Text) :
    (optional body).match? text =
      some ((body.match? text).getD ([], text)) := by
  rw [match?, match?, fronts, List.head?_append]
  cases (body.fronts text).head? <;> rfl

theorem match?_both_letter_cons
    (accepts : Char → Bool) (second : Pattern) (head : Char) (rest : Text) :
    (both (letter accepts) second).match? (head :: rest) =
      if accepts head then
        (second.match? rest).map fun back => (head :: back.1, back.2)
      else
        none := by
  unfold match?
  by_cases accepted : accepts head
  · simp [fronts, accepted]
  · simp [fronts, accepted]

/-- Where the second part always matches, the first part keeps its preferred
match. -/
theorem match?_both
    {first second : Pattern}
    (certain : ∀ text, (second.match? text).isSome) (text : Text) :
    (both first second).match? text =
      (first.match? text).bind fun front =>
        (second.match? front.2).map fun back =>
          (front.1 ++ back.1, back.2) := by
  unfold match? at certain ⊢
  rw [fronts]
  cases first.fronts text with
  | nil => rfl
  | cons front others =>
      obtain ⟨back, found⟩ := Option.isSome_iff_exists.mp (certain front.2)
      simp [List.flatMap_cons, List.head?_append, found]

/-- A repetition that may not give anything back takes all that it can. -/
theorem match?_both_many
    {accepts : Char → Bool} {second : Pattern}
    (refuses :
      ∀ {head : Char} {rest : Text},
        accepts head → second.match? (head :: rest) = none)
    (text : Text) :
    (both (many accepts) second).match? text =
      (second.match? (text.dropWhile accepts)).map fun back =>
        (text.takeWhile accepts ++ back.1, back.2) := by
  induction text with
  | nil => simp [match?, fronts, runs]
  | cons head rest inductionHypothesis =>
      by_cases accepted : accepts head
      · have refused : second.fronts (head :: rest) = [] :=
          List.head?_eq_none_iff.mp (refuses accepted)
        have longer :
            (both (many accepts) second).fronts (head :: rest) =
              ((both (many accepts) second).fronts rest).map
                fun split => (head :: split.1, split.2) := by
          simp [fronts, runs, accepted, refused, List.flatMap_map,
            List.map_flatMap, Function.comp_def]
        have matched :
            (both (many accepts) second).match? (head :: rest) =
              ((both (many accepts) second).match? rest).map
                fun split => (head :: split.1, split.2) := by
          unfold match?
          rw [longer, List.head?_map]
        rw [matched, inductionHypothesis, Option.map_map]
        simp [accepted, Function.comp_def]
      · simp [match?, fronts, runs, accepted]

end Pattern

end DiceNotation
