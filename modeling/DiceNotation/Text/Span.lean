import DiceNotation.Text.Basic

/-!
# Spans of a text

Stretches of a text, given by byte offsets, the gaps that a list of spans
leaves, and gaps and fillings woven together. Where spans are cut out of a text
in order (`CutFrom`), gaps and slices make up the text (`weave_slices`).
-/

namespace DiceNotation

/-- The bytes from `start` up to but not including `stop`. -/
structure Span where
  start : Nat
  stop : Nat
deriving DecidableEq, Repr

namespace Text

/-- The part of `text` that `span` covers. -/
def slice (text : Text) (span : Span) : Text :=
  takeBytes (span.stop - span.start) (dropBytes span.start text)

/-- The parts of `text` from byte `cursor` on that lie before, between and
after `spans`. -/
def gapsFrom (cursor : Nat) (text : Text) : List Span → List Text
  | [] => [dropBytes cursor text]
  | span :: spans =>
      slice text ⟨cursor, span.start⟩ :: gapsFrom span.stop text spans

/-- The parts of `text` outside `spans`, one more than there are spans. -/
def gaps (text : Text) (spans : List Span) : List Text :=
  gapsFrom 0 text spans

/-- Gaps and fillings in turn, beginning with a gap. -/
def weave : List Text → List Text → Text
  | gap :: gaps, filling :: fillings =>
      gap ++ (filling ++ weave gaps fillings)
  | gaps, _ => gaps.flatten

/-- The spans are cut out of a text that begins at byte `cursor`: they are in
order, do not overlap, and begin and end between characters. -/
inductive CutFrom : Nat → List Span → Text → Prop
  | nil (cursor : Nat) (rest : Text) : CutFrom cursor [] rest
  | cons (cursor : Nat) (gap body : Text) {later : Text}
      {spans : List Span}
      (others :
        CutFrom (cursor + gap.byteSize + body.byteSize) spans later) :
      CutFrom cursor
        (⟨cursor + gap.byteSize, cursor + gap.byteSize + body.byteSize⟩ ::
          spans)
        (gap ++ (body ++ later))

theorem length_gapsFrom (cursor : Nat) (text : Text) (spans : List Span) :
    (gapsFrom cursor text spans).length = spans.length + 1 := by
  induction spans generalizing cursor with
  | nil => rfl
  | cons span spans inductionHypothesis =>
      simp [gapsFrom, inductionHypothesis]

theorem slice_append (before part rest : Text) :
    slice (before ++ (part ++ rest))
        ⟨before.byteSize, before.byteSize + part.byteSize⟩ = part := by
  simp [slice]

theorem byteSize_append_append (before gap body : Text) :
    byteSize (before ++ (gap ++ body)) =
      before.byteSize + gap.byteSize + body.byteSize := by
  rw [byteSize_append, byteSize_append, Nat.add_assoc]

namespace CutFrom

variable {cursor : Nat} {spans : List Span} {text : Text}

theorem prepend
    (front : Text)
    (cut : CutFrom (cursor + front.byteSize) spans text) :
    CutFrom cursor spans (front ++ text) := by
  generalize position : cursor + front.byteSize = reached at cut
  cases cut with
  | nil => exact nil cursor (front ++ text)
  | cons _ gap body others =>
      subst position
      have sizes :
          cursor + front.byteSize + gap.byteSize =
            cursor + (front ++ gap).byteSize := by
        rw [byteSize_append, Nat.add_assoc]
      rw [sizes] at others ⊢
      rw [← List.append_assoc]
      exact cons cursor (front ++ gap) body others

/-- Spans may be left out. -/
theorem sublist
    {fewer : List Span} (cut : CutFrom cursor spans text)
    (part : List.Sublist fewer spans) : CutFrom cursor fewer text := by
  induction cut generalizing fewer with
  | nil cursor rest =>
      rw [List.sublist_nil.mp part]
      exact nil cursor rest
  | cons cursor gap body others inductionHypothesis =>
      cases part with
      | cons _ later =>
          have behind := inductionHypothesis later
          exact prepend gap (prepend body behind)
      | cons_cons _ later =>
          exact cons cursor gap body (inductionHypothesis later)

theorem start_le
    (cut : CutFrom cursor spans text) {span : Span}
    (member : span ∈ spans) : cursor ≤ span.start := by
  induction cut with
  | nil => contradiction
  | cons cursor gap body others inductionHypothesis =>
      rcases List.mem_cons.mp member with rfl | later
      · exact Nat.le_add_right cursor gap.byteSize
      · have behind := inductionHypothesis later
        omega

/-- Spans that are cut out one after the other do not overlap. -/
theorem pairwise (cut : CutFrom cursor spans text) :
    spans.Pairwise fun earlier later => earlier.stop ≤ later.start := by
  induction cut with
  | nil => exact List.Pairwise.nil
  | cons cursor gap body others inductionHypothesis =>
      apply List.Pairwise.cons
      · intro later member
        exact others.start_le member
      · exact inductionHypothesis

theorem weave_slices_from
    (before : Text) (cut : CutFrom before.byteSize spans text) :
    weave (gapsFrom before.byteSize (before ++ text) spans)
        (spans.map (slice (before ++ text))) = text := by
  generalize position : before.byteSize = reached at cut
  induction cut generalizing before with
  | nil =>
      subst position
      simp [gapsFrom, weave]
  | @cons cursor gap body later spans others inductionHypothesis =>
      subst position
      have gapSlice :
          slice (before ++ (gap ++ (body ++ later)))
            ⟨before.byteSize, before.byteSize + gap.byteSize⟩ = gap :=
        slice_append before gap (body ++ later)
      have bodySlice :=
        slice_append (before ++ gap) body later
      have behind :=
        inductionHypothesis (before ++ (gap ++ body))
          (byteSize_append_append before gap body)
      simp only [List.append_assoc, byteSize_append] at bodySlice behind
      simp only [gapsFrom, List.map_cons, weave, gapSlice, bodySlice,
        behind]

/-- Gaps and slices in turn are the text. -/
theorem weave_slices (cut : CutFrom 0 spans text) :
    weave (gaps text spans) (spans.map (slice text)) = text :=
  weave_slices_from [] cut

end CutFrom

end Text

end DiceNotation
