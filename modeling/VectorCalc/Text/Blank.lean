import VectorCalc.Text.Ranges

/-!
# Blank characters

The characters that make a line blank: white space of Unicode 14 together with the four separator
controls `U+001C` to `U+001F`. A line that holds only these is skipped by the shell.
-/

namespace VectorCalc.Text

/-- The blank characters, `U+0009` to `U+3000`. -/
def blankRanges : Ranges :=
  [(0x09, 0x0D), (0x1C, 0x20), (0x85, 0x85), (0xA0, 0xA0), (0x1680, 0x1680), (0x2000, 0x200A),
   (0x2028, 0x2029), (0x202F, 0x202F), (0x205F, 0x205F), (0x3000, 0x3000)]

/-- The character is white space or a separator control. -/
def isBlank (c : Char) : Bool := blankRanges.covers c.toNat

/-- The text holds nothing but blank characters; the empty text is blank. -/
def isBlankText (s : String) : Bool := s.toList.all isBlank

example : blankRanges.ascending = true ∧ blankRanges.count = 29 := by decide

example : isBlank 'a' = false ∧ isBlank '\u200b' = false := by decide

end VectorCalc.Text
