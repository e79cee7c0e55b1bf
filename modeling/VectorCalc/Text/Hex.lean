/-!
# Hexadecimal numbers

Code points and bytes in messages are written in lower-case hexadecimal with a fixed least width.
-/

namespace VectorCalc.Text

/-- The number in lower-case hexadecimal, padded with zeros to `width` digits. -/
def hex (width n : Nat) : List Char :=
  let digits := Nat.toDigits 16 n
  List.replicate (width - digits.length) '0' ++ digits

example : hex 2 10 = ['0', 'a'] ∧ hex 4 0x200B = ['2', '0', '0', 'b'] := by decide

end VectorCalc.Text
