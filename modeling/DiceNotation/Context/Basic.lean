import DiceNotation.Roll
import DiceNotation.Roller.Basic

/-!
# Rolling contexts

A context is a roller together with the number of dice rolled so far and an
optional limit on that number. Actions in a context either succeed or fail
with a `RollError`, and leave a context behind in both cases; an action that
runs out of attempts leaves nothing. Each `runIn` lemma says what one action
does to a context.
-/

namespace DiceNotation

/-- Why dice cannot be rolled. -/
inductive RollError where
  /-- More dice than `limit` would be rolled. -/
  | tooManyDice (limit : UInt64)
  /-- No face of the dice is above the threshold. -/
  | invalidThreshold (brutal sides : UInt32)
deriving DecidableEq, Repr

def RollError.message : RollError → Text
  | tooManyDice limit =>
      "too many dice rolled (limit ".toList ++
        Text.decimal limit.toNat ++ ")".toList
  | invalidThreshold brutal sides =>
      "brutal threshold ".toList ++ Text.decimal brutal.toNat ++
        " leaves no face of a d".toList ++ Text.decimal sides.toNat ++
        " to keep".toList

/-- A roller, the dice rolled with it so far, and how many are allowed. -/
structure Context (σ : Type) where
  limit : Option UInt64
  rolled : UInt64 := 0
  roller : σ
deriving DecidableEq, Repr

namespace Context

variable {σ : Type}

/-- A new context with a limit. -/
def limited (limit : UInt64) (roller : σ) : Context σ where
  limit := some limit
  roller := roller

/-- A new context without a limit. -/
def unlimited (roller : σ) : Context σ where
  limit := none
  roller := roller

/-- The sum, or the largest 64-bit word where the sum exceeds it. -/
def addCapped (word : UInt64) (amount : Nat) : UInt64 :=
  UInt64.ofNat (min (word.toNat + amount) (UInt64.size - 1))

/-- Counts `amount` more dice. -/
def count (amount : Nat) (context : Context σ) : Context σ :=
  { context with rolled := addCapped context.rolled amount }

/-- The face that the next draw shows. -/
def shown [Roller σ] (sides : Positive) (context : Context σ) : UInt32 :=
  (Roller.roll context.roller sides).1

/-- The context after the next draw. -/
def drawn [Roller σ] (sides : Positive) (context : Context σ) : Context σ :=
  { context with roller := (Roller.roll context.roller sides).2 }

/-- The error that more dice have been counted than the limit allows. -/
def excess? (context : Context σ) : Option RollError :=
  match context.limit with
  | some limit =>
      if limit < context.rolled then some (.tooManyDice limit) else none
  | none => none

theorem toNat_addCapped (word : UInt64) (amount : Nat) :
    (addCapped word amount).toNat =
      min (word.toNat + amount) (UInt64.size - 1) :=
  UInt64.toNat_ofNat_of_lt' <|
    Nat.lt_of_le_of_lt (Nat.min_le_right _ _) (by decide)

end Context

/-- An action in a context. -/
abbrev RollM (σ : Type) :=
  ExceptT RollError (StateT (Context σ) Option)

namespace RollM

variable {σ α β : Type}

/-- The outcome of an action and the context that it leaves, if it ends. -/
def runIn (context : Context σ) (action : RollM σ α) :
    Option (Except RollError α × Context σ) :=
  action.run.run context

/-- An action that does not end. -/
def unfinished : RollM σ α :=
  ExceptT.mk fun _ => none

/-- Counts `amount` more dice and fails if they are too many. They stay
counted. -/
def charge (amount : Nat) : RollM σ Unit := do
  modify (Context.count amount)
  match (← get).excess? with
  | some error => throw error
  | none => pure ()

/-- A face from the roller. -/
def draw [Roller σ] (sides : Positive) : RollM σ UInt32 := do
  let context ← get
  set (context.drawn sides)
  return context.shown sides

/-- Forgets the dice rolled so far; the roller goes on where it stands. -/
def reset : RollM σ Unit :=
  modify fun context => { context with rolled := 0 }

theorem runIn_pure (context : Context σ) (value : α) :
    runIn context (pure value : RollM σ α) =
      some (.ok value, context) := rfl

theorem runIn_throw (context : Context σ) (error : RollError) :
    runIn context (throw error : RollM σ α) =
      some (.error error, context) := rfl

theorem runIn_unfinished (context : Context σ) :
    runIn context (unfinished : RollM σ α) = none := rfl

/-- A sequence whose first part fails leaves the context of the failure. -/
theorem runIn_bind
    (context : Context σ) (action : RollM σ α) (next : α → RollM σ β) :
    runIn context (action >>= next) =
      match runIn context action with
      | some (.ok value, after) => runIn after (next value)
      | some (.error error, after) => some (.error error, after)
      | none => none := by
  have opened :
      runIn context (action >>= next) =
        (runIn context action).bind fun outcome =>
          ExceptT.bindCont next outcome.1 outcome.2 := rfl
  rw [opened]
  rcases runIn context action with _ | ⟨_ | _, _⟩ <;> rfl

/-- Dice are counted even if they turn out to be too many. -/
theorem runIn_charge (context : Context σ) (amount : Nat) :
    runIn context (charge amount) =
      match (context.count amount).excess? with
      | some error => some (.error error, context.count amount)
      | none => some (.ok (), context.count amount) := by
  have opened :
      runIn context (charge amount) =
        runIn (context.count amount)
          (match (context.count amount).excess? with
          | some error => throw error
          | none => pure ()) := rfl
  rw [opened]
  cases (context.count amount).excess? <;> rfl

theorem runIn_draw
    [Roller σ] (context : Context σ) (sides : Positive) :
    runIn context (draw sides) =
      some (.ok (context.shown sides), context.drawn sides) := rfl

theorem runIn_reset (context : Context σ) :
    runIn context reset =
      some (.ok (), { context with rolled := 0 }) := rfl

end RollM

end DiceNotation
