import DiceNotation.Roller.Generator

/-!
# A seeded generator

A 64-bit counter advances by an odd stride, and each word is the upper half
of the scrambled counter. An odd stride visits every count, zero among them,
so the generator comes to the word zero from every seed.
-/

namespace DiceNotation

/-- A generator in mid-sequence. -/
structure Scrambler where
  counter : UInt64
deriving DecidableEq, Repr

namespace Scrambler

def stride : UInt64 := 0x9E3779B97F4A7C15

/-- Spreads every bit of a count over the whole word; zero stays zero. -/
def scramble (count : UInt64) : UInt64 :=
  let first := (count ^^^ (count >>> 30)) * 0xBF58476D1CE4E5B9
  let second := (first ^^^ (first >>> 27)) * 0x94D049BB133111EB
  second ^^^ (second >>> 31)

instance : Generator Scrambler where
  next source :=
    ((scramble source.counter >>> 32).toUInt32,
      ⟨source.counter + stride⟩)

/-- The words are scrambled counts, one stride apart. -/
theorem wordAt_eq (source : Scrambler) (passed : Nat) :
    Generator.wordAt source passed =
      (scramble
        (source.counter + UInt64.ofNat passed * stride) >>> 32).toUInt32 := by
  induction passed generalizing source with
  | zero => simp [Generator.wordAt, Generator.next]
  | succ passed inductionHypothesis =>
      have advanced :
          source.counter + stride + UInt64.ofNat passed * stride =
            source.counter + UInt64.ofNat (passed + 1) * stride := by
        rw [UInt64.ofNat_add]
        grind
      rw [Generator.wordAt, inductionHypothesis]
      simp only [Generator.next, advanced]

/-- The number of strides from zero to one. -/
def stridesToOne : UInt64 := 0xF1DE83E19937733D

instance : RecurrentGenerator Scrambler where
  horizon _ := UInt64.size
  reaches_zero source := by
    refine
      ⟨(-source.counter * stridesToOne).toNat,
        (-source.counter * stridesToOne).toNat_lt_size, ?_⟩
    have unit : stridesToOne * stride = 1 := by decide
    have back :
        source.counter + -source.counter * stridesToOne * stride = 0 := by
      grind
    rw [wordAt_eq, UInt64.ofNat_toNat, back]
    decide

end Scrambler

end DiceNotation
