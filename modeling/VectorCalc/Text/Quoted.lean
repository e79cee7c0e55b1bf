import VectorCalc.Text.Hex
import VectorCalc.Text.Printable

/-!
# Quoted text

Messages show a name or a piece of a line in quotes. The quote is the apostrophe, or the double
quote when the text holds apostrophes and no double quote. The quote in use, the backslash and
hidden characters are escaped, so a quoted text never holds a line break.
-/

namespace VectorCalc.Text

/-- The apostrophe. -/
def apostrophe : Char := '\x27'

/-- The double quote. -/
def doubleQuote : Char := '\x22'

/-- The quote that needs the fewest escapes, the apostrophe if in doubt. -/
def quoteFor (s : List Char) : Char :=
  if apostrophe ∈ s ∧ doubleQuote ∉ s then doubleQuote else apostrophe

/-- A character as it stands between quotes `q`. -/
def escape (q c : Char) : List Char :=
  if c = q ∨ c = '\\' then ['\\', c]
  else if c = '\n' then ['\\', 'n']
  else if c = '\r' then ['\\', 'r']
  else if c = '\t' then ['\\', 't']
  else if isPrintable c then [c]
  else if c.toNat < 0x100 then '\\' :: 'x' :: hex 2 c.toNat
  else if c.toNat < 0x10000 then '\\' :: 'u' :: hex 4 c.toNat
  else '\\' :: 'U' :: hex 8 c.toNat

/-- The text in quotes. -/
def quoted (s : String) : String :=
  let q := quoteFor s.toList
  String.ofList (q :: s.toList.flatMap (escape q) ++ [q])

example : quoted "a\nb" = "'a\\nb'" := by decide +kernel

end VectorCalc.Text
