import DiceNotation.Context.Basic

/-!
# Counting dice against a limit

A count that would exceed the largest 64-bit word stays at that word, so the
largest limit is as good as none.
-/

namespace DiceNotation.Context

variable {σ : Type}

/-- There is no limit, or it is the largest one. -/
def Unbounded (context : Context σ) : Prop :=
  ∀ limit, context.limit = some limit →
    limit.toNat = UInt64.size - 1

/-- The limit allows `amount` more dice. -/
def Affords (context : Context σ) (amount : Nat) : Prop :=
  (context.count amount).excess? = none

theorem addCapped_zero (word : UInt64) : addCapped word 0 = word := by
  rw [← UInt64.toNat_inj, toNat_addCapped]
  have bound := word.toNat_lt_size
  omega

theorem addCapped_addCapped (word : UInt64) (first second : Nat) :
    addCapped (addCapped word first) second =
      addCapped word (first + second) := by
  rw [← UInt64.toNat_inj, toNat_addCapped, toNat_addCapped,
    toNat_addCapped]
  omega

theorem count_count (context : Context σ) (first second : Nat) :
    (context.count first).count second = context.count (first + second) := by
  rw [count, count, count, addCapped_addCapped]

/-- It is the capped count that is compared with the limit. -/
theorem affords_iff {context : Context σ} {amount : Nat} :
    context.Affords amount ↔
      ∀ limit, context.limit = some limit →
        min (context.rolled.toNat + amount) (UInt64.size - 1) ≤
          limit.toNat := by
  rw [Affords, excess?, ← toNat_addCapped]
  cases present : context.limit with
  | none => simp [count, present]
  | some limit =>
      simp [count, present, UInt64.le_iff_toNat_le]

/-- A counter that stays within a limit is exact. -/
theorem toNat_rolled_count_of_le
    {context : Context σ} {limit : UInt64} {amount : Nat}
    (fits : context.rolled.toNat + amount ≤ limit.toNat) :
    (context.count amount).rolled.toNat =
      context.rolled.toNat + amount := by
  have small := limit.toNat_lt_size
  rw [count, toNat_addCapped]
  omega

theorem le_of_affords
    {context : Context σ} {limit : UInt64} {amount : Nat}
    (present : context.limit = some limit)
    (bound : limit.toNat < UInt64.size - 1)
    (affords : context.Affords amount) :
    context.rolled.toNat + amount ≤ limit.toNat := by
  have within := affords_iff.mp affords limit present
  omega

/-- Below the largest word the cap hides no excess. -/
theorem excess?_count_of_lt
    {context : Context σ} {limit : UInt64} {amount : Nat}
    (present : context.limit = some limit)
    (bound : limit.toNat < UInt64.size - 1)
    (excess : limit.toNat < context.rolled.toNat + amount) :
    (context.count amount).excess? = some (.tooManyDice limit) := by
  have more : limit < addCapped context.rolled amount := by
    rw [UInt64.lt_iff_toNat_lt, toNat_addCapped]
    omega
  have same : (context.count amount).limit = some limit := present
  rw [excess?, same]
  exact if_pos more

theorem Affords.mono
    {context : Context σ} {amount less : Nat}
    (affords : context.Affords amount) (le : less ≤ amount) :
    context.Affords less := by
  rw [affords_iff] at affords ⊢
  intro limit present
  have bound := affords limit present
  omega

/-- No count exceeds the largest word. -/
theorem Unbounded.affords
    {context : Context σ} (unbounded : context.Unbounded)
    (amount : Nat) : context.Affords amount := by
  rw [affords_iff]
  intro limit present
  rw [unbounded limit present]
  exact Nat.min_le_right _ _

theorem affords_of_le
    {context : Context σ} {limit : UInt64} {amount : Nat}
    (present : context.limit = some limit)
    (fits : context.rolled.toNat + amount ≤ limit.toNat) :
    context.Affords amount := by
  rw [affords_iff]
  intro other presentOther
  rw [present] at presentOther
  cases presentOther
  omega

end DiceNotation.Context
