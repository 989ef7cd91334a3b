import DiceNotation.Text.Basic

/-!
# Blank characters

The twenty-five characters with the Unicode property White_Space, and texts
without them at the ends.
-/

namespace DiceNotation.Text

/-- First and last code points of the ranges of white space. -/
def blankRanges : List (Nat × Nat) :=
  [(0x09, 0x0D), (0x20, 0x20), (0x85, 0x85), (0xA0, 0xA0),
    (0x1680, 0x1680), (0x2000, 0x200A), (0x2028, 0x2029),
    (0x202F, 0x202F), (0x205F, 0x205F), (0x3000, 0x3000)]

def isBlank (letter : Char) : Bool :=
  blankRanges.any fun range =>
    range.1 ≤ letter.toNat && letter.toNat ≤ range.2

/-- The text without the blank characters that it begins with. -/
def trimStart (text : Text) : Text := text.dropWhile isBlank

/-- The text without the blank characters that it ends with. -/
def trimEnd (text : Text) : Text :=
  (text.reverse.dropWhile isBlank).reverse

/-- The text without the blank characters at both of its ends. -/
def trim (text : Text) : Text := trimEnd (trimStart text)

end DiceNotation.Text
