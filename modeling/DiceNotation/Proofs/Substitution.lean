import DiceNotation.Context.Process
import DiceNotation.Proofs.Returning
import DiceNotation.Proofs.Scan

/-!
# Substitution of totals

Replacing the notation in a text is rolling its expressions one after the
other and weaving the totals into the gaps (`substitute_eq`). The first
expression that fails ends it (`returns_mapM`).
-/

namespace DiceNotation.RollM

variable {σ β : Type}

/-! ## Rolling one after the other -/

/-- The expressions are rolled from left to right, each in the context that
the one before it left, and none of them fails. -/
inductive RollsTo (roll : Nat → Expression → RollM σ β) :
    Context σ → List Expression → List β → Context σ → Prop
  | nil (context : Context σ) : RollsTo roll context [] [] context
  | cons {context between after : Context σ} {expression : Expression}
      {others : List Expression} {value : β} {values : List β}
      (first : Returns (roll · expression) context (.ok value, between))
      (rest : RollsTo roll between others values after) :
      RollsTo roll context (expression :: others) (value :: values) after

/-- The first of the expressions that fails does so with this error, and
nothing is rolled after it. -/
def FirstFails
    (roll : Nat → Expression → RollM σ β) (context : Context σ)
    (expressions : List Expression) (error : RollError)
    (after : Context σ) : Prop :=
  ∃ front failing back values between,
    expressions = front ++ failing :: back ∧
      RollsTo roll context front values between ∧
        Returns (roll · failing) between (.error error, after)

section

variable {roll : Nat → Expression → RollM σ β} {context after : Context σ}
  {expression : Expression} {others : List Expression}

theorem rollsTo_cons {values : List β} :
    RollsTo roll context (expression :: others) values after ↔
      ∃ value between rest,
        Returns (roll · expression) context (.ok value, between) ∧
          RollsTo roll between others rest after ∧
            values = value :: rest := by
  constructor
  · intro rolled
    cases rolled with
    | cons first rest => exact ⟨_, _, _, first, rest, rfl⟩
  · intro rolled
    rcases rolled with ⟨value, between, rest, first, later, equality⟩
    subst equality
    exact RollsTo.cons first later

theorem not_firstFails_nil {error : RollError} :
    ¬ FirstFails roll context [] error after := by
  intro failed
  rcases failed with ⟨front, failing, back, _, _, equality, _, _⟩
  exact List.append_ne_nil_of_right_ne_nil front
    (List.cons_ne_nil failing back) equality.symm

theorem firstFails_cons {error : RollError} :
    FirstFails roll context (expression :: others) error after ↔
      (∃ value between,
        Returns (roll · expression) context (.ok value, between) ∧
          FirstFails roll between others error after) ∨
        Returns (roll · expression) context (.error error, after) := by
  constructor
  · intro fails
    rcases fails with
      ⟨front, failing, back, values, between, equality, rolled, failed⟩
    cases rolled with
    | nil =>
        injection equality with headEquality _
        subst headEquality
        exact Or.inr failed
    | cons first rest =>
        injection equality with headEquality tailEquality
        subst headEquality
        apply Or.inl
        exact
          ⟨_, _, first, _, failing, back, _, between, tailEquality, rest,
            failed⟩
  · intro fails
    rcases fails with ⟨value, between, first, later⟩ | failed
    · rcases later with
        ⟨front, failing, back, values, reached, equality, rest, failed⟩
      refine
        ⟨expression :: front, failing, back, value :: values, reached, ?_,
          RollsTo.cons first rest, failed⟩
      rw [equality, List.cons_append]
    · exact
        ⟨[], expression, others, [], context, rfl, RollsTo.nil context,
          failed⟩

theorem steady_mapM
    (steady : ∀ expression, Steady (roll · expression))
    (expressions : List Expression) :
    Steady fun attempts => expressions.mapM (roll attempts) :=
  sequential_steady.mapM steady expressions

theorem returns_mapM_cons
    (steady : ∀ expression, Steady (roll · expression))
    {result : Except RollError (List β)} :
    Returns (fun attempts => (expression :: others).mapM (roll attempts))
        context (result, after) ↔
      (∃ value between,
        Returns (roll · expression) context (.ok value, between) ∧
          ∃ rest,
            Returns (fun attempts => others.mapM (roll attempts)) between
                (rest, after) ∧
              rest.map (value :: ·) = result) ∨
      ∃ error,
        Returns (roll · expression) context (.error error, after) ∧
          result = .error error := by
  have opened :
      (fun attempts => (expression :: others).mapM (roll attempts)) =
        fun attempts => roll attempts expression >>= fun value =>
          (value :: ·) <$> others.mapM (roll attempts) := by
    funext attempts
    rw [List.mapM_cons]
    simp only [bind_pure_comp]
  have othersSteady := steady_mapM steady others
  rw [opened,
    returns_bind (steady expression) fun value =>
      sequential_steady.map othersSteady _]
  simp only [returns_map othersSteady]

/-- Rolling expressions in order succeeds if all succeed; otherwise it fails
as the first that fails. -/
theorem returns_mapM
    (steady : ∀ expression, Steady (roll · expression))
    (expressions : List Expression)
    (result : Except RollError (List β)) :
    Returns (fun attempts => expressions.mapM (roll attempts)) context
        (result, after) ↔
      (∃ values,
        RollsTo roll context expressions values after ∧
          result = .ok values) ∨
      ∃ error,
        FirstFails roll context expressions error after ∧
          result = .error error := by
  induction expressions generalizing context result with
  | nil =>
      simp only [List.mapM_nil, returns_const, runIn_pure]
      constructor
      · intro ends
        cases ends
        exact Or.inl ⟨[], RollsTo.nil _, rfl⟩
      · intro ends
        rcases ends with ⟨values, rolled, equality⟩ | ⟨error, failed, _⟩
        · cases rolled
          rw [equality]
        · exact absurd failed not_firstFails_nil
  | cons expression others inductionHypothesis =>
      simp only [returns_mapM_cons steady, inductionHypothesis,
        rollsTo_cons, firstFails_cons]
      constructor
      · intro ends
        rcases ends with
          ⟨value, between, first, _, rest, equality⟩ |
            ⟨error, failed, equality⟩
        · subst equality
          rcases rest with
            ⟨values, rolled, equality⟩ | ⟨error, failed, equality⟩
          · subst equality
            apply Or.inl
            exact
              ⟨value :: values,
                ⟨value, between, values, first, rolled, rfl⟩, rfl⟩
          · subst equality
            apply Or.inr
            exact
              ⟨error, Or.inl ⟨value, between, first, failed⟩, rfl⟩
        · exact Or.inr ⟨error, Or.inr failed, equality⟩
      · intro ends
        rcases ends with
          ⟨_, ⟨value, between, values, first, rolled, equality⟩, same⟩ |
            ⟨error, ⟨value, between, first, failed⟩ | failed, same⟩
        · subst equality
          subst same
          apply Or.inl
          exact
            ⟨value, between, first, .ok values,
              Or.inl ⟨values, rolled, rfl⟩, rfl⟩
        · subst same
          apply Or.inl
          exact
            ⟨value, between, first, .error error,
              Or.inr ⟨error, failed, rfl⟩, rfl⟩
        · exact Or.inr ⟨error, failed, same⟩

end

/-! ## The loop over a text -/

section

variable (roll : Expression → RollM σ β) (total : β → Nat)
  (source : Text)

/-- The loop from byte `cursor` on rolls what is still to come and weaves the
totals into the gaps that are left. -/
theorem replaceFrom_eq (cursor : Nat) (found : List Occurrence) :
    replaceFrom roll total source cursor found =
      (fun values =>
        (Text.weave
          (source.gapsFrom cursor (found.map Occurrence.span))
          (values.map fun value => Text.decimal (total value)),
          values)) <$>
        (found.map Occurrence.expression).mapM roll := by
  induction found generalizing cursor with
  | nil =>
      simp [replaceFrom, Text.gapsFrom, Text.weave]
  | cons first others inductionHypothesis =>
      simp only [replaceFrom, List.map_cons, List.mapM_cons, map_bind,
        inductionHypothesis, bind_map_left, map_pure]
      rfl

theorem substitute_eq :
    substitute roll total source =
      if occurrences source = [] then
        return (.untouched source, [])
      else
        (fun values =>
          (.replaced
            (Text.weave
              (source.gaps ((occurrences source).map Occurrence.span))
              (values.map fun value => Text.decimal (total value))),
            values)) <$>
          (expressions source).mapM roll := by
  rw [substitute, expressions]
  cases occurrences source with
  | nil => rfl
  | cons first others =>
      rw [if_neg (List.cons_ne_nil first others)]
      simp only [replaceFrom_eq, bind_map_left]
      rw [← bind_pure_comp]
      rfl

end

variable [Roller σ]

theorem process_eq (attempts : Nat) (source : Text) :
    process (σ := σ) attempts source =
      if occurrences source = [] then
        return .untouched source
      else
        (fun totals =>
          .replaced
            (Text.weave
              (source.gaps ((occurrences source).map Occurrence.span))
              (totals.map Text.decimal))) <$>
          (expressions source).mapM (evaluate attempts) := by
  rw [process, substitute_eq]
  by_cases nothing : occurrences source = []
  · rw [if_pos nothing, if_pos nothing]
    rfl
  · rw [if_neg nothing, if_neg nothing, bind_map_left, ← bind_pure_comp]
    rfl

/-- What becomes of a text: nothing, if there is no notation in it. Otherwise
its expressions are evaluated in order, and either all totals are put between
the gaps or the first failure is the result. Gaps and slices in turn are the
text. -/
theorem returns_process_iff
    (context : Context σ) (source : Text)
    (result : Except RollError Processed) (after : Context σ) :
    (Returns (process · source) context (result, after) ↔
      (occurrences source = [] ∧ result = .ok (.untouched source) ∧
        after = context) ∨
      (occurrences source ≠ [] ∧
        ∃ totals,
          RollsTo evaluate context (expressions source) totals after ∧
            result =
              .ok
                (.replaced
                  (Text.weave
                    (source.gaps
                      ((occurrences source).map Occurrence.span))
                    (totals.map Text.decimal)))) ∨
      ∃ error,
        FirstFails evaluate context (expressions source) error after ∧
          result = .error error) ∧
    (source.gaps ((occurrences source).map Occurrence.span)).length =
        (occurrences source).length + 1 ∧
      Text.weave
          (source.gaps ((occurrences source).map Occurrence.span))
          (((occurrences source).map Occurrence.span).map source.slice) =
        source := by
  refine ⟨?_, ?_, (cutFrom_occurrences source).weave_slices⟩
  · simp only [process_eq]
    by_cases nothing : occurrences source = []
    · simp only [if_pos nothing, returns_const, runIn_pure]
      have noExpressions : expressions source = [] := by
        rw [expressions, nothing, List.map_nil]
      rw [noExpressions]
      constructor
      · intro ends
        cases ends
        exact Or.inl ⟨nothing, rfl, rfl⟩
      · intro ends
        rcases ends with
          ⟨_, equality, same⟩ | ⟨something, _⟩ | ⟨error, failed, _⟩
        · rw [equality, same]
        · exact absurd nothing something
        · exact absurd failed not_firstFails_nil
    · have steady :=
        steady_mapM (σ := σ) steady_evaluate (expressions source)
      simp only [if_neg nothing, returns_map steady,
        returns_mapM steady_evaluate]
      constructor
      · intro ends
        rcases ends with
          ⟨_, ⟨totals, rolled, same⟩ | ⟨error, failed, same⟩, equality⟩
        · subst same
          apply Or.inr
          apply Or.inl
          exact ⟨nothing, totals, rolled, equality.symm⟩
        · subst same
          apply Or.inr
          apply Or.inr
          exact ⟨error, failed, equality.symm⟩
      · intro ends
        rcases ends with
          ⟨something, _⟩ | ⟨_, totals, rolled, equality⟩ |
            ⟨error, failed, equality⟩
        · exact absurd something nothing
        · exact
            ⟨.ok totals, Or.inl ⟨totals, rolled, rfl⟩, equality.symm⟩
        · exact
            ⟨.error error, Or.inr ⟨error, failed, rfl⟩, equality.symm⟩
  · rw [Text.gaps, Text.length_gapsFrom, List.length_map]

end DiceNotation.RollM
