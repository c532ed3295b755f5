/-!
# Blank characters

The characters that are stripped from both ends of a line: the 25 characters with the Unicode
property White_Space, which has been the same set since Unicode 6.3, and the four information
separators U+001C to U+001F.
-/

namespace Calculator.Text

/-- Closed ranges of code points, ascending and apart. -/
def blankRanges : List (Nat × Nat) :=
  [(0x09, 0x0D), (0x1C, 0x20), (0x85, 0x85), (0xA0, 0xA0), (0x1680, 0x1680), (0x2000, 0x200A),
   (0x2028, 0x2029), (0x202F, 0x202F), (0x205F, 0x205F), (0x3000, 0x3000)]

/-- Does the character count as blank? -/
def isBlank (c : Char) : Bool :=
  blankRanges.any fun range ↦ range.1 ≤ c.toNat && c.toNat ≤ range.2

/-- The text without the blank characters at its two ends. -/
def strip (text : List Char) : List Char :=
  ((text.dropWhile isBlank).reverse.dropWhile isBlank).reverse

/-- The table has 29 characters. -/
example : (blankRanges.map fun range ↦ range.2 + 1 - range.1).sum = 29 := by decide

end Calculator.Text
