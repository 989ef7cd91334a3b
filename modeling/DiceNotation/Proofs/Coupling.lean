import DiceNotation.Proofs.Composition
import DiceNotation.Roller.Generator
import Mathlib.Data.List.Forall2

/-!
# Runs with different rollers

Where no face can be rejected, faces have no influence on what is counted and
drawn. Two runs with different rollers then go through contexts that agree in
all but their rollers, and they end with the same error or with values that
differ in the faces shown (`RollM.Coupled`). Dice with one side leave no room
even for that (`RollM.coupled_processDetailed`).
-/

namespace DiceNotation

variable {σ τ : Type}

/-- Every face that the roller shows is one of the faces of the die. -/
def Roller.InRange (σ : Type) [Roller σ] : Prop :=
  ∀ (source : σ) (sides : Positive),
    0 < (Roller.roll source sides).1 ∧
      (Roller.roll source sides).1 ≤ sides.val

namespace Generator

variable {γ : Type}

theorem quotient_lt (sides : Positive) (word : UInt32) :
    word.toNat * sides.toNat / UInt32.size < sides.toNat :=
  Nat.div_lt_of_lt_mul
    (Nat.mul_lt_mul_of_pos_right word.toNat_lt_size sides.toNat_pos)

theorem toNat_face (sides : Positive) (word : UInt32) :
    (face sides word).toNat =
      word.toNat * sides.toNat / UInt32.size + 1 :=
  UInt32.toNat_ofNat_of_lt'
    (Nat.lt_of_le_of_lt (quotient_lt sides word) sides.toNat_lt)

/-- A face of a word is one of the faces of the die. -/
theorem face_inRange (sides : Positive) (word : UInt32) :
    0 < face sides word ∧ face sides word ≤ sides.val := by
  rw [UInt32.lt_iff_toNat_lt, UInt32.le_iff_toNat_le, toNat_face]
  exact ⟨Nat.succ_pos _, quotient_lt sides word⟩

theorem face?_inRange [Generator γ]
    {sides : Positive} {attempts : Nat} {source : γ} {drawn : UInt32 × γ}
    (found : face? sides attempts source = some drawn) :
    0 < drawn.1 ∧ drawn.1 ≤ sides.val := by
  induction attempts generalizing source with
  | zero => contradiction
  | succ attempts inductionHypothesis =>
      rw [face?] at found
      split at found
      · cases found
        exact face_inRange sides (next source).1
      · exact inductionHypothesis found

/-- Faces from random words are in range. -/
theorem inRange [RecurrentGenerator γ] : Roller.InRange γ := by
  intro source sides
  have found :
      face? sides (RecurrentGenerator.horizon source) source =
        some (Roller.roll source sides) :=
    (Option.some_get _).symm
  exact face?_inRange found

end Generator

/-- Rolling the same die keeps the sources alike. -/
def Roller.Keeps [Roller σ] [Roller τ] (alike : σ → τ → Prop) : Prop :=
  ∀ source image, alike source image → ∀ sides,
    alike (Roller.roll source sides).2 (Roller.roll image sides).2

/-- The limits are the same, as many dice have been counted, and the rollers
are alike. -/
structure Context.Agrees (alike : σ → τ → Prop) (context : Context σ)
    (image : Context τ) : Prop where
  limit : context.limit = image.limit
  rolled : context.rolled = image.rolled
  roller : alike context.roller image.roller

/-- No face of a die within its range is rejected: either the dice are not
rolled at all or every face is above the threshold. -/
def Expression.Settled (expression : Expression) : Prop :=
  expression.brutal = 0 ∨ ¬ expression.Keepable

/-- The die has been rolled once and shows one of its faces. -/
structure Die.RolledOnce (sides : Positive) (die : Die) : Prop where
  sides_eq : die.sides = sides
  rejected : die.rejected = []
  pos : 0 < die.kept
  le_sides : die.kept ≤ sides.val

/-- So many dice, each rolled once. -/
def AllOnce (sides : Positive) (count : Nat) (dice : List Die) : Prop :=
  dice.length = count ∧ ∀ die ∈ dice, die.RolledOnce sides

/-- The roll is of this expression, and its dice have been rolled once. -/
structure Roll.RolledOnce (expression : Expression) (rolled : Roll) :
    Prop where
  expression_eq : rolled.expression = expression
  dice : AllOnce expression.sides expression.count.toNat rolled.dice

theorem AllOnce.reverse
    {sides : Positive} {count : Nat} {dice : List Die}
    (once : AllOnce sides count dice) :
    AllOnce sides count dice.reverse :=
  ⟨List.length_reverse.trans once.1,
    fun die member => once.2 die (List.mem_reverse.mp member)⟩

theorem AllOnce.cons
    {sides : Positive} {count : Nat} {dice : List Die} {die : Die}
    (others : AllOnce sides count dice) (once : die.RolledOnce sides) :
    AllOnce sides (count + 1) (die :: dice) :=
  ⟨congrArg Nat.succ others.1,
    List.forall_mem_cons.mpr ⟨once, others.2⟩⟩

/-! ## One face -/

/-- Every expression in the text rolls dice with one side. -/
def OneSided (source : Text) : Prop :=
  ∀ expression ∈ expressions source, expression.sides = .one

theorem Expression.settled_of_sides_eq_one
    {expression : Expression} (single : expression.sides = .one) :
    expression.Settled := by
  by_cases kept : expression.brutal = 0
  · exact Or.inl kept
  · have positive := UInt32.pos_iff_ne_zero.mpr kept
    apply Or.inr
    rw [Keepable, single]
    exact UInt32.not_lt.mpr positive

/-- The only face of a die with one side. -/
theorem Die.RolledOnce.eq_of_one
    {die : Die} (once : die.RolledOnce .one) : die = ⟨.one, [], 1⟩ := by
  obtain ⟨sides, rejected, kept⟩ := die
  have single : sides = .one := once.sides_eq
  have nothing : rejected = [] := once.rejected
  have face : kept = 1 := UInt32.le_antisymm once.le_sides once.pos
  rw [single, nothing, face]

theorem Roll.RolledOnce.eq_of_one
    {expression : Expression} {rolled : Roll}
    (once : rolled.RolledOnce expression)
    (single : expression.sides = .one) :
    rolled =
      ⟨expression,
        List.replicate expression.count.toNat ⟨.one, [], 1⟩⟩ := by
  obtain ⟨same, dice⟩ := rolled
  have sameExpression : same = expression := once.expression_eq
  obtain ⟨length, each⟩ := once.dice
  rw [single] at each
  rw [sameExpression]
  congr
  exact
    List.eq_replicate_iff.mpr
      ⟨length, fun die member => (each die member).eq_of_one⟩

namespace RollM

open Context

variable {α β γ δ : Type}

/-- Two results are related values or the same error. -/
inductive Matches (related : α → β → Prop) :
    Except RollError α → Except RollError β → Prop
  | ok {value : α} {image : β} (values : related value image) :
      Matches related (.ok value) (.ok image)
  | error (error : RollError) :
      Matches related (.error error) (.error error)

/-- From contexts that agree both actions end, with related results and in
contexts that agree. -/
def Coupled (alike : σ → τ → Prop) (related : α → β → Prop)
    (action : RollM σ α) (image : RollM τ β) : Prop :=
  ∀ context other, context.Agrees alike other →
    ∃ ending imageEnding,
      runIn context action = some ending ∧
        runIn other image = some imageEnding ∧
        Matches related ending.1 imageEnding.1 ∧
        ending.2.Agrees alike imageEnding.2

section

variable {alike : σ → τ → Prop} {related : α → β → Prop}
  {relatedNext : γ → δ → Prop} {action : RollM σ α} {image : RollM τ β}

theorem coupled_pure {value : α} {imageValue : β}
    (values : related value imageValue) :
    Coupled alike related (pure value : RollM σ α) (pure imageValue) := by
  intro context other agrees
  exact ⟨_, _, rfl, rfl, Matches.ok values, agrees⟩

theorem coupled_throw (error : RollError) :
    Coupled alike related (throw error : RollM σ α) (throw error) := by
  intro context other agrees
  exact ⟨_, _, rfl, rfl, Matches.error error, agrees⟩

/-- Coupled actions with coupled continuations are coupled. -/
theorem Coupled.bind
    {next : α → RollM σ γ} {imageNext : β → RollM τ δ}
    (first : Coupled alike related action image)
    (second :
      ∀ value imageValue, related value imageValue →
        Coupled alike relatedNext (next value) (imageNext imageValue)) :
    Coupled alike relatedNext (action >>= next) (image >>= imageNext) := by
  intro context other agrees
  obtain ⟨⟨result, between⟩, ⟨imageResult, imageBetween⟩, ends, imageEnds,
    results, agreesBetween⟩ := first context other agrees
  rw [runIn_bind, runIn_bind, ends, imageEnds]
  cases results with
  | ok values =>
      exact second _ _ values between imageBetween agreesBetween
  | error error =>
      exact ⟨_, _, rfl, rfl, Matches.error error, agreesBetween⟩

theorem Coupled.map
    {change : α → γ} {imageChange : β → δ}
    (coupled : Coupled alike related action image)
    (changes :
      ∀ value imageValue, related value imageValue →
        relatedNext (change value) (imageChange imageValue)) :
    Coupled alike relatedNext (change <$> action)
      (imageChange <$> image) := by
  rw [← bind_pure_comp, ← bind_pure_comp]
  apply coupled.bind
  intro value imageValue values
  exact coupled_pure (changes value imageValue values)

theorem Coupled.mono
    {weaker : α → β → Prop} (coupled : Coupled alike related action image)
    (weakens :
      ∀ value imageValue, related value imageValue →
        weaker value imageValue) :
    Coupled alike weaker action image := by
  have mapped := coupled.map weakens
  rw [id_map', id_map'] at mapped
  exact mapped

theorem coupled_mapM
    {rollOne : γ → RollM σ α} {imageOne : γ → RollM τ β} {items : List γ}
    (ones :
      ∀ item ∈ items, Coupled alike related (rollOne item) (imageOne item)) :
    Coupled alike (List.Forall₂ related) (items.mapM rollOne)
      (items.mapM imageOne) := by
  induction items with
  | nil =>
      rw [List.mapM_nil, List.mapM_nil]
      exact coupled_pure List.Forall₂.nil
  | cons item items inductionHypothesis =>
      obtain ⟨here, others⟩ := List.forall_mem_cons.mp ones
      rw [List.mapM_cons, List.mapM_cons]
      apply here.bind
      intro value imageValue values
      apply (inductionHypothesis others).bind
      intro rest imageRest rests
      exact coupled_pure (List.Forall₂.cons values rests)

theorem coupled_charge (amount : Nat) :
    Coupled alike (fun _ _ => True) (charge amount : RollM σ Unit)
      (charge amount : RollM τ Unit) := by
  intro context other agrees
  have counted :
      (context.count amount).Agrees alike (other.count amount) := by
    refine ⟨agrees.limit, ?_, agrees.roller⟩
    rw [count, count, agrees.rolled]
  have sameExcess :
      (context.count amount).excess? = (other.count amount).excess? := by
    rw [excess?, excess?, counted.limit, counted.rolled]
  rw [runIn_charge, runIn_charge, sameExcess]
  cases (other.count amount).excess? with
  | none => exact ⟨_, _, rfl, rfl, Matches.ok trivial, counted⟩
  | some error => exact ⟨_, _, rfl, rfl, Matches.error error, counted⟩

theorem coupled_checkThreshold (expression : Expression) :
    Coupled alike (fun _ _ => expression.Keepable)
      (checkThreshold expression : RollM σ Unit)
      (checkThreshold expression : RollM τ Unit) := by
  by_cases keepable : expression.Keepable
  · rw [checkThreshold, checkThreshold, if_pos keepable, if_pos keepable]
    exact coupled_pure keepable
  · rw [checkThreshold, checkThreshold, if_neg keepable, if_neg keepable]
    exact coupled_throw _

end

/-! ## Dice that are rolled once -/

section

variable [Roller σ] [Roller τ] {alike : σ → τ → Prop}
  (keeps : Roller.Keeps alike) (inRange : Roller.InRange σ)
  (imageInRange : Roller.InRange τ) (attempts more : Nat)
include keeps inRange imageInRange

theorem coupled_draw (sides : Positive) :
    Coupled alike
      (fun face image =>
        (0 < face ∧ face ≤ sides.val) ∧ 0 < image ∧ image ≤ sides.val)
      (draw sides : RollM σ UInt32) (draw sides : RollM τ UInt32) := by
  intro context other agrees
  rw [runIn_draw, runIn_draw]
  exact
    ⟨_, _, rfl, rfl,
      Matches.ok
        ⟨inRange context.roller sides, imageInRange other.roller sides⟩,
      agrees.limit, agrees.rolled,
      keeps context.roller other.roller agrees.roller sides⟩

/-- Without a threshold, the first face of each roller is kept. -/
theorem coupled_keepFace
    {ε : Type} (sides : Positive) (reject : ε → UInt32 → ε)
    (gathered : ε) :
    Coupled alike
      (fun kept image =>
        (kept.1 = gathered ∧ image.1 = gathered) ∧
          (0 < kept.2 ∧ kept.2 ≤ sides.val) ∧
          0 < image.2 ∧ image.2 ≤ sides.val)
      (keepFace (σ := σ) sides 0 reject (attempts + 1) gathered)
      (keepFace (σ := τ) sides 0 reject (more + 1) gathered) := by
  rw [keepFace, keepFace]
  apply (coupled_draw keeps inRange imageInRange sides).bind
  intro face image faces
  rw [if_neg (UInt32.not_le.mpr faces.1.1),
    if_neg (UInt32.not_le.mpr faces.2.1)]
  exact coupled_pure ⟨⟨rfl, rfl⟩, faces⟩

theorem coupled_collectDice
    (sides : Positive) (count : Nat) {length imageLength : Nat}
    {dice imageDice : List Die} (once : AllOnce sides length dice)
    (imageOnce : AllOnce sides imageLength imageDice) :
    Coupled alike
      (fun rolled image =>
        AllOnce sides (length + count) rolled ∧
          AllOnce sides (imageLength + count) image)
      (collectDice (σ := σ) (attempts + 1) sides 0 count dice)
      (collectDice (σ := τ) (more + 1) sides 0 count imageDice) := by
  induction count generalizing length imageLength dice imageDice with
  | zero =>
      exact coupled_pure ⟨once.reverse, imageOnce.reverse⟩
  | succ count inductionHypothesis =>
      rw [collectDice, collectDice, Nat.add_comm count, ← Nat.add_assoc,
        ← Nat.add_assoc]
      apply
        (coupled_keepFace keeps inRange imageInRange attempts more sides _
          []).bind
      intro kept image faces
      obtain ⟨⟨nothing, imageNothing⟩, face, imageFace⟩ := faces
      apply inductionHypothesis
      · exact once.cons ⟨rfl, by rw [nothing]; rfl, face.1, face.2⟩
      · exact
          imageOnce.cons
            ⟨rfl, by rw [imageNothing]; rfl, imageFace.1, imageFace.2⟩

/-- Where no face is rejected, two rolls of an expression differ only in the
faces shown. -/
theorem coupled_roll
    {expression : Expression} (settled : expression.Settled) :
    Coupled alike
      (fun rolled image =>
        rolled.RolledOnce expression ∧ image.RolledOnce expression)
      (roll (σ := σ) (attempts + 1) expression)
      (roll (σ := τ) (more + 1) expression) := by
  rw [roll, roll]
  apply (coupled_checkThreshold expression).bind
  intro _ _ keepable
  have kept : expression.brutal = 0 := by
    rcases settled with kept | unkeepable
    · exact kept
    · exact absurd keepable unkeepable
  have none : AllOnce expression.sides 0 [] := ⟨rfl, List.forall_mem_nil _⟩
  have collected :=
    coupled_collectDice keeps inRange imageInRange attempts more
      expression.sides expression.count.toNat none none
  rw [Nat.zero_add] at collected
  apply (coupled_charge _).bind
  intro _ _ _
  rw [kept]
  apply collected.bind
  intro dice imageDice once
  exact coupled_pure ⟨⟨rfl, once.1⟩, rfl, once.2⟩

/-- Dice with one side give all rollers the same roll. -/
theorem coupled_roll_of_one
    {expression : Expression} (single : expression.sides = .one) :
    Coupled alike Eq (roll (σ := σ) (attempts + 1) expression)
      (roll (σ := τ) (more + 1) expression) := by
  have settled := Expression.settled_of_sides_eq_one single
  apply (coupled_roll keeps inRange imageInRange attempts more settled).mono
  intro rolled image once
  rw [once.1.eq_of_one single, once.2.eq_of_one single]

/-- Dice with one side are all the same whatever rolls them. -/
theorem coupled_processDetailed
    {source : Text} (oneSided : OneSided source) :
    Coupled alike Eq (processDetailed (σ := σ) (attempts + 1) source)
      (processDetailed (σ := τ) (more + 1) source) := by
  have rolled :=
    coupled_mapM fun expression member =>
      coupled_roll_of_one keeps inRange imageInRange attempts more
        (oneSided expression member)
  rw [List.forall₂_eq_eq_eq] at rolled
  rw [processDetailed, processDetailed, substitute_eq_map,
    substitute_eq_map]
  apply rolled.map
  intro rolls image same
  rw [same]

end

end RollM

end DiceNotation
