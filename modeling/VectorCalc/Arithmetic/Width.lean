import VectorCalc.Arithmetic.Rounding

/-!
# Arithmetic of a fixed width

The calculator computes with signed words of 64 or of 32 bits. Sums, differences and products keep
the low bits of the exact result; a power is computed as a floating-point number of the same width
and the nearest end of the range stands for what lies outside it.
-/

namespace VectorCalc

/-- How wide the words are in which results are computed. -/
inductive Width where
  | bits64
  | bits32
deriving DecidableEq

namespace Width

/-- The number of bits of a word. -/
def bits : Width → Nat
  | .bits64 => 64
  | .bits32 => 32

/-- The number of significant bits of a floating-point number of this width. -/
def precision : Width → Nat
  | .bits64 => 53
  | .bits32 => 24

/-- The name of the words of this width. -/
def typeName (w : Width) : String := "int" ++ toString w.bits

/-- The least word. -/
def least : Width → Int
  | .bits64 => Int64.minValue.toInt
  | .bits32 => Int32.minValue.toInt

/-- The greatest word. -/
def greatest : Width → Int
  | .bits64 => Int64.maxValue.toInt
  | .bits32 => Int32.maxValue.toInt

/-- The number is a word. -/
def fits (w : Width) (n : Int) : Bool := w.least ≤ n && n ≤ w.greatest

/-- The word that agrees with `n` in its low bits. -/
def wrap : Width → Int → Int64
  | .bits64, n => Int64.ofInt n
  | .bits32, n => (Int32.ofInt n).toInt64

/-- The word nearest to `n`. -/
def saturate (w : Width) (n : Int) : Int64 := Int64.ofInt (max w.least (min n w.greatest))

/-! ## Powers -/

/-- An exponent of the same parity as `y` that is at most one more than the number of bits. The power
of a whole number is the same with it, or both powers lie outside the range on the same side. -/
def tameExponent (w : Width) (y : Nat) : Nat :=
  if y ≤ w.bits then y else w.bits + (y - w.bits) % 2

/-- The power of two floating-point numbers that are whole, truncated toward zero. A negative power
of zero is infinite, so any number above the range stands for it; a negative power of a number
greater than one in size is a fraction. -/
def truncatedPower (w : Width) (x : Int) : Int → Int
  | .ofNat y => roundInt w.precision (x.pow (w.tameExponent y))
  | .negSucc y =>
    if x = 0 then w.greatest
    else if x.natAbs = 1 then x.pow (w.tameExponent (y + 1))
    else 0

/-- The power of two words: both are rounded to floating-point numbers, and the truncated power
saturates. -/
def power (w : Width) (x y : Int) : Int64 :=
  w.saturate (w.truncatedPower (roundInt w.precision x) (roundInt w.precision y))

end Width

end VectorCalc
