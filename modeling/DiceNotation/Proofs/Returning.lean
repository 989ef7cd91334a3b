import DiceNotation.Context.Rolling

/-!
# Actions that return

An action given a number of attempts returns if from some number on it always
ends in the same way. The actions of a context are steady: once they end, more
attempts change nothing. For steady actions returning is compositional
(`returns_bind`), so that attempts can be forgotten. What a property needs in
order to pass from actions to lists of them is said once (`Sequential`).
-/

namespace DiceNotation.RollM

variable {σ α β : Type} {action : Nat → RollM σ α}
  {next : Nat → α → RollM σ β} {context : Context σ}

/-- An outcome and the context that is left behind. -/
abbrev Ending (σ α : Type) := Except RollError α × Context σ

/-- Given enough attempts, the action ends like this. -/
def Returns (action : Nat → RollM σ α) (context : Context σ)
    (ending : Ending σ α) : Prop :=
  ∃ enough, ∀ attempts, enough ≤ attempts →
    runIn context (action attempts) = some ending

/-- Wherever the action ends, `longer` ends in the same way. -/
def ExtendsTo (action longer : RollM σ α) : Prop :=
  ∀ context ending, runIn context action = some ending →
    runIn context longer = some ending

/-- More attempts only extend the action. -/
def Steady (action : Nat → RollM σ α) : Prop :=
  ∀ attempts more, attempts ≤ more →
    ExtendsTo (action attempts) (action more)

/-- What holds of values, and of a sequence if it holds of both parts. -/
structure Sequential
    (holds : ∀ {α : Type}, (Nat → RollM σ α) → Prop) : Prop where
  holds_pure {α : Type} (value : α) : holds fun _ => pure value
  holds_bind {α β : Type} {action : Nat → RollM σ α}
    {next : Nat → α → RollM σ β} :
    holds action → (∀ value, holds (next · value)) →
      holds fun attempts => action attempts >>= next attempts

namespace Sequential

variable {holds : ∀ {α : Type}, (Nat → RollM σ α) → Prop}
  (sequential : Sequential holds)
include sequential

theorem map (first : holds action) (change : α → β) :
    holds fun attempts => change <$> action attempts := by
  simp only [← bind_pure_comp]
  apply sequential.holds_bind first
  intro value
  exact sequential.holds_pure (change value)

/-- What is done with each of a list may be done with all of them in turn. -/
theorem mapM
    {γ : Type} {actOn : Nat → γ → RollM σ α}
    (each : ∀ item, holds (actOn · item)) (items : List γ) :
    holds fun attempts => items.mapM (actOn attempts) := by
  induction items with
  | nil =>
      simp only [List.mapM_nil]
      exact sequential.holds_pure []
  | cons item items inductionHypothesis =>
      simp only [List.mapM_cons]
      apply sequential.holds_bind (each item)
      intro value
      apply sequential.holds_bind inductionHypothesis
      intro values
      exact sequential.holds_pure (value :: values)

end Sequential

/-- A sequence ends as its second action does, or with the error of the first,
which the second never sees. -/
theorem runIn_bind_eq_some_iff
    {action : RollM σ α} {next : α → RollM σ β}
    {result : Except RollError β} {after : Context σ} :
    runIn context (action >>= next) = some (result, after) ↔
      (∃ value between, runIn context action = some (.ok value, between) ∧
        runIn between (next value) = some (result, after)) ∨
      ∃ error, runIn context action = some (.error error, after) ∧
        result = .error error := by
  rw [runIn_bind]
  constructor
  · intro ends
    cases first : runIn context action with
    | none =>
        rw [first] at ends
        contradiction
    | some ending =>
        rw [first] at ends
        obtain ⟨error | value, between⟩ := ending
        · cases ends
          exact Or.inr ⟨error, rfl, rfl⟩
        · exact Or.inl ⟨value, between, rfl, ends⟩
  · intro ended
    rcases ended with
      ⟨value, between, first, second⟩ | ⟨error, first, same⟩
    · rw [first]
      exact second
    · rw [first, same]

theorem exists_of_runIn_bind_eq_ok
    {action : RollM σ α} {next : α → RollM σ β} {result : β}
    {after : Context σ}
    (ends : runIn context (action >>= next) = some (.ok result, after)) :
    ∃ value between, runIn context action = some (.ok value, between) ∧
      runIn between (next value) = some (.ok result, after) := by
  rcases runIn_bind_eq_some_iff.mp ends with succeeded | ⟨error, _, same⟩
  · exact succeeded
  · contradiction

/-- However many attempts there are beyond enough, there is one ending. -/
theorem Returns.unique
    {first second : Ending σ α} (returns : Returns action context first)
    (again : Returns action context second) : first = second := by
  obtain ⟨enough, ends⟩ := returns
  obtain ⟨alsoEnough, alsoEnds⟩ := again
  have here := ends (max enough alsoEnough) (Nat.le_max_left _ _)
  have there := alsoEnds (max enough alsoEnough) (Nat.le_max_right _ _)
  exact Option.some.inj (here.symm.trans there)

theorem returns_succ
    {ending : Ending σ α} :
    Returns (fun attempts => action (attempts + 1)) context ending ↔
      Returns action context ending := by
  constructor
  · intro returned
    obtain ⟨enough, ends⟩ := returned
    refine ⟨enough + 1, ?_⟩
    intro attempts le
    cases attempts with
    | zero => contradiction
    | succ attempts => exact ends attempts (Nat.le_of_succ_le_succ le)
  · intro returned
    obtain ⟨enough, ends⟩ := returned
    exact ⟨enough, fun attempts le => ends _ (Nat.le_succ_of_le le)⟩

/-- A steady action returns if it ends at all. -/
theorem returns_iff_exists
    (steady : Steady action) {ending : Ending σ α} :
    Returns action context ending ↔
      ∃ attempts, runIn context (action attempts) = some ending := by
  constructor
  · intro returned
    obtain ⟨enough, ends⟩ := returned
    exact ⟨enough, ends enough (Nat.le_refl _)⟩
  · intro ended
    obtain ⟨enough, ends⟩ := ended
    exact ⟨enough, fun more le => steady enough more le _ _ ends⟩

theorem ExtendsTo.refl (action : RollM σ α) : ExtendsTo action action :=
  fun _ _ ends => ends

theorem ExtendsTo.bind
    {action longer : RollM σ α} {next longerNext : α → RollM σ β}
    (extension : ExtendsTo action longer)
    (nextExtension : ∀ value, ExtendsTo (next value) (longerNext value)) :
    ExtendsTo (action >>= next) (longer >>= longerNext) := by
  intro context ending ends
  rcases runIn_bind_eq_some_iff.mp ends with
    ⟨value, between, first, second⟩ | ⟨error, first, same⟩
  · have longerFirst := extension context _ first
    have longerSecond := nextExtension value between ending second
    exact
      runIn_bind_eq_some_iff.mpr
        (Or.inl ⟨value, between, longerFirst, longerSecond⟩)
  · have longerFirst := extension context _ first
    exact
      runIn_bind_eq_some_iff.mpr (Or.inr ⟨error, longerFirst, same⟩)

theorem steady_const (action : RollM σ α) : Steady fun _ => action :=
  fun _ _ _ => ExtendsTo.refl action

/-- Sequences of steady actions are steady. -/
theorem Steady.bind
    (steady : Steady action) (nextSteady : ∀ value, Steady (next · value)) :
    Steady fun attempts => action attempts >>= next attempts :=
  fun attempts more le =>
    (steady attempts more le).bind fun value =>
      nextSteady value attempts more le

theorem sequential_steady :
    Sequential (σ := σ) fun action => Steady action where
  holds_pure value := steady_const (pure value)
  holds_bind := Steady.bind

theorem returns_const (action : RollM σ α) {ending : Ending σ α} :
    Returns (fun _ => action) context ending ↔
      runIn context action = some ending := by
  rw [returns_iff_exists (steady_const action)]
  exact exists_const Nat

theorem Returns.bind
    {value : α} {between : Context σ} {ending : Ending σ β}
    (first : Returns action context (.ok value, between))
    (second : Returns (next · value) between ending) :
    Returns (fun attempts => action attempts >>= next attempts) context
      ending := by
  obtain ⟨enough, ends⟩ := first
  obtain ⟨alsoEnough, alsoEnds⟩ := second
  refine ⟨max enough alsoEnough, ?_⟩
  intro attempts le
  rw [runIn_bind, ends attempts (Nat.le_trans (Nat.le_max_left _ _) le)]
  exact alsoEnds attempts (Nat.le_trans (Nat.le_max_right _ _) le)

theorem Returns.bind_error
    {error : RollError} {after : Context σ}
    (failed : Returns action context (.error error, after)) :
    Returns (fun attempts => action attempts >>= next attempts) context
      (.error error, after) := by
  obtain ⟨enough, ends⟩ := failed
  refine ⟨enough, ?_⟩
  intro attempts le
  rw [runIn_bind, ends attempts le]

/-- A sequence of steady actions returns just if its parts return one after the
other, or the first of them with an error. -/
theorem returns_bind
    (steady : Steady action) (nextSteady : ∀ value, Steady (next · value))
    {result : Except RollError β} {after : Context σ} :
    Returns (fun attempts => action attempts >>= next attempts) context
        (result, after) ↔
      (∃ value between, Returns action context (.ok value, between) ∧
        Returns (next · value) between (result, after)) ∨
      (∃ error, Returns action context (.error error, after) ∧
        result = .error error) := by
  constructor
  · intro ended
    obtain ⟨attempts, ends⟩ :=
      (returns_iff_exists (steady.bind nextSteady)).mp ended
    rcases runIn_bind_eq_some_iff.mp ends with
      ⟨value, between, first, second⟩ | ⟨error, first, same⟩
    · have returned := (returns_iff_exists steady).mpr ⟨attempts, first⟩
      have later :=
        (returns_iff_exists (nextSteady value)).mpr ⟨attempts, second⟩
      exact Or.inl ⟨value, between, returned, later⟩
    · have returned := (returns_iff_exists steady).mpr ⟨attempts, first⟩
      exact Or.inr ⟨error, returned, same⟩
  · intro returned
    rcases returned with
      ⟨value, between, first, second⟩ | ⟨error, first, equality⟩
    · exact first.bind second
    · rw [equality]
      exact first.bind_error

theorem runIn_map (context : Context σ) (change : α → β) (action : RollM σ α) :
    runIn context (change <$> action) =
      (runIn context action).map fun ending =>
        (ending.1.map change, ending.2) := by
  rw [← bind_pure_comp, runIn_bind]
  rcases runIn context action with _ | ⟨_ | _, _⟩ <;> rfl

theorem Returns.map
    {original : Except RollError α} {after : Context σ}
    (returned : Returns action context (original, after))
    (change : α → β) :
    Returns (fun attempts => change <$> action attempts) context
      (original.map change, after) := by
  obtain ⟨enough, ends⟩ := returned
  refine ⟨enough, ?_⟩
  intro attempts le
  rw [runIn_map, ends attempts le]
  rfl

/-- To change the value of a steady action changes no context and no error. -/
theorem returns_map
    (steady : Steady action) {change : α → β} {result : Except RollError β}
    {after : Context σ} :
    Returns (fun attempts => change <$> action attempts) context
        (result, after) ↔
      ∃ original, Returns action context (original, after) ∧
        original.map change = result := by
  constructor
  · intro returned
    obtain ⟨enough, ends⟩ := returned
    have here := ends enough (Nat.le_refl _)
    rw [runIn_map, Option.map_eq_some_iff] at here
    obtain ⟨⟨original, reached⟩, first, same⟩ := here
    cases same
    exact
      ⟨original, (returns_iff_exists steady).mpr ⟨enough, first⟩, rfl⟩
  · intro returned
    obtain ⟨original, first, equality⟩ := returned
    rw [← equality]
    exact first.map change

/-! ## What an action ensures -/

/-- From every context in which `before` holds, the action returns, and
`behind` holds of its result and the context that it leaves. -/
def Ensures (before : Context σ → Prop) (action : Nat → RollM σ α)
    (behind : Except RollError α → Context σ → Prop) : Prop :=
  ∀ context, before context →
    ∃ result after, Returns action context (result, after) ∧
      behind result after

/-- What a sequence ensures: `middle` is what the second action starts from, and
errors of the first must satisfy `behind` as they are. -/
theorem Ensures.bind
    {before : Context σ → Prop}
    {middle : Except RollError α → Context σ → Prop}
    {behind : Except RollError β → Context σ → Prop}
    (first : Ensures before action middle)
    (second :
      ∀ value, Ensures (middle (.ok value)) (next · value) behind)
    (failed :
      ∀ error context, middle (.error error) context →
        behind (.error error) context) :
    Ensures before (fun attempts => action attempts >>= next attempts)
      behind := by
  intro context holds
  obtain ⟨error | value, between, returned, reached⟩ :=
    first context holds
  · exact
      ⟨.error error, between, returned.bind_error,
        failed error between reached⟩
  · obtain ⟨result, after, later, final⟩ := second value between reached
    exact ⟨result, after, returned.bind later, final⟩

/-! ## The actions of a context are steady -/

/-- The checks before the first draw need no attempts. -/
theorem Steady.checked (steady : Steady action) (expression : Expression) :
    Steady fun attempts =>
      (do
        checkThreshold expression
        charge expression.count.toNat
        action attempts) := by
  have threshold := steady_const (σ := σ) (checkThreshold expression)
  have charged := steady_const (σ := σ) (charge expression.count.toNat)
  apply threshold.bind
  intro _
  apply charged.bind
  intro _
  exact steady

section

variable [Roller σ] (sides : Positive) (brutal : UInt32)

/-- A die that has kept a face needs no more attempts. -/
theorem steady_keepFace
    {γ : Type} (reject : γ → UInt32 → γ) (gathered : γ) :
    Steady (σ := σ) (keepFace sides brutal reject · gathered) := by
  intro attempts more le
  obtain ⟨extra, rfl⟩ := Nat.exists_eq_add_of_le le
  clear le
  -- The first draw takes one attempt from both sides.
  induction attempts generalizing gathered with
  | zero =>
      intro context ending ends
      contradiction
  | succ attempts inductionHypothesis =>
      rw [Nat.succ_add]
      apply (ExtendsTo.refl (draw sides)).bind
      intro face
      by_cases rejected : face ≤ brutal
      · rw [if_pos rejected, if_pos rejected]
        apply (ExtendsTo.refl (charge 1)).bind
        intro _
        exact inductionHypothesis (reject gathered face)
      · rw [if_neg rejected, if_neg rejected]
        exact ExtendsTo.refl _

theorem steady_addDice (count sum : Nat) :
    Steady (σ := σ) (addDice · sides brutal count sum) := by
  induction count generalizing sum with
  | zero => exact steady_const (pure sum)
  | succ count inductionHypothesis =>
      have first :
          Steady (σ := σ)
            (keepFace sides brutal (fun _ _ => ()) · ()) :=
        steady_keepFace sides brutal _ ()
      apply first.bind
      intro kept
      exact inductionHypothesis _

theorem steady_collectDice (count : Nat) (dice : List Die) :
    Steady (σ := σ) (collectDice · sides brutal count dice) := by
  induction count generalizing dice with
  | zero => exact steady_const (pure dice.reverse)
  | succ count inductionHypothesis =>
      have first :
          Steady (σ := σ)
            (keepFace sides brutal (fun faces face => face :: faces) ·
              []) :=
        steady_keepFace sides brutal _ []
      apply first.bind
      intro kept
      exact inductionHypothesis _

theorem steady_evaluate (expression : Expression) :
    Steady (σ := σ) (evaluate · expression) :=
  (steady_addDice _ _ _ _).checked expression

theorem steady_roll (expression : Expression) :
    Steady (σ := σ) (roll · expression) := by
  have collected :=
    steady_collectDice (σ := σ) expression.sides expression.brutal
      expression.count.toNat []
  exact
    (collected.bind fun dice =>
      steady_const (pure (Roll.mk expression dice))).checked expression

end

end DiceNotation.RollM
