/-!
# Rounding to a number of significant bits

A binary floating-point number with `p` significant bits stands for the whole numbers whose bits
below the leading `p` are zero. Rounding picks the nearest of them, and of two that are equally near
the one whose last significant bit is zero.
-/

namespace VectorCalc

/-- `n` rounded to `p` significant bits, ties to even. -/
def roundNat (p n : Nat) : Nat :=
  let unit := 1 <<< (n.log2 + 1 - p)
  let q := n / unit
  let r := n % unit
  if unit < 2 * r ∨ unit = 2 * r ∧ q % 2 = 1 then (q + 1) * unit else q * unit

/-- `n` rounded to `p` significant bits, ties to even; the sign is kept. -/
def roundInt (p : Nat) : Int → Int
  | .ofNat n => roundNat p n
  | .negSucc n => -(roundNat p (n + 1) : Int)

example : roundNat 3 9 = 8 ∧ roundNat 3 11 = 12 ∧ roundNat 3 13 = 12 ∧ roundNat 3 7 = 7 := by decide

end VectorCalc
