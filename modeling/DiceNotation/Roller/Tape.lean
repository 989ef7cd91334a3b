import DiceNotation.Roller.Generator

/-!
# Rollers whose faces are known beforehand

Tapes make rolls repeatable: an arithmetic sequence of faces, a written list
of faces, and a written list of random words. Each counts what has been drawn
from it.
-/

namespace DiceNotation

/-- Faces in arithmetic sequence from `initial` on, wrapped around each
die. -/
structure Stepping where
  initial : Positive
  step : UInt32
  draws : Nat := 0
deriving DecidableEq, Repr

instance : Roller Stepping where
  roll source sides :=
    let reached :=
      source.initial.toNat - 1 + source.draws * source.step.toNat
    (UInt32.ofNat (reached % sides.toNat + 1),
      ⟨source.initial, source.step, source.draws + 1⟩)

/-- The faces `ahead` whatever the die, then always its highest face. -/
structure FaceTape where
  ahead : List UInt32
  draws : Nat := 0
deriving DecidableEq, Repr

instance : Roller FaceTape where
  roll source sides :=
    match source.ahead with
    | face :: ahead => (face, ⟨ahead, source.draws + 1⟩)
    | [] => (sides.val, ⟨[], source.draws + 1⟩)

/-- The words `ahead`, then the multiples of a fixed odd word, of which
`multiples` have passed. -/
structure WordTape where
  ahead : List UInt32
  multiples : Nat := 0
  draws : Nat := 0
deriving DecidableEq, Repr

namespace WordTape

/-- The `number`-th multiple of the odd word that fills up a tape. -/
def multiple (number : Nat) : UInt32 :=
  UInt32.ofNat (number * 0x9E3779B9)

instance : Generator WordTape where
  next source :=
    match source.ahead with
    | word :: ahead =>
        (word, ⟨ahead, source.multiples, source.draws + 1⟩)
    | [] =>
        (multiple (source.multiples + 1),
          ⟨[], source.multiples + 1, source.draws + 1⟩)

theorem wordAt_multiples (multiples draws passed : Nat) :
    Generator.wordAt (⟨[], multiples, draws⟩ : WordTape) passed =
      multiple (multiples + passed + 1) := by
  induction passed generalizing multiples draws with
  | zero => rfl
  | succ passed inductionHypothesis =>
      rw [Generator.wordAt]
      simp only [Generator.next, inductionHypothesis]
      congr 1
      omega

/-- Behind the written words come the multiples in order. -/
theorem wordAt_behind_list
    (ahead : List UInt32) (multiples draws passed : Nat) :
    Generator.wordAt (⟨ahead, multiples, draws⟩ : WordTape)
        (ahead.length + passed) =
      multiple (multiples + passed + 1) := by
  induction ahead generalizing draws with
  | nil =>
      simpa using wordAt_multiples multiples draws passed
  | cons word ahead inductionHypothesis =>
      have later :
          (word :: ahead).length + passed =
            (ahead.length + passed) + 1 := by
        simp only [List.length_cons]
        omega
      rw [later, Generator.wordAt]
      exact inductionHypothesis (draws + 1)

theorem multiple_eq_zero (cycles : Nat) :
    multiple (UInt32.size * cycles) = 0 := by
  rw [← UInt32.toNat_inj, multiple, UInt32.toNat_ofNat',
    Nat.mul_assoc, Nat.mul_mod_right]
  rfl

instance : RecurrentGenerator WordTape where
  horizon source := source.ahead.length + UInt32.size
  reaches_zero source := by
    obtain ⟨ahead, multiples, draws⟩ := source
    refine
      ⟨ahead.length + (UInt32.size - 1 - multiples % UInt32.size), ?_, ?_⟩
    · simp only [UInt32.size]
      omega
    · rw [wordAt_behind_list]
      have whole :
          multiples + (UInt32.size - 1 - multiples % UInt32.size) + 1 =
            UInt32.size * (multiples / UInt32.size + 1) := by
        unfold UInt32.size
        omega
      rw [whole, multiple_eq_zero]

end WordTape

end DiceNotation
