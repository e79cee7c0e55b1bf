import VectorCalc.Text.Blank
import VectorCalc.Text.DecimalDigit

/-!
# Integers written as settings

A whole number given as text: white space around it, one sign, and decimal digits of any script in
which single underscores may separate groups. Numbers of more than `digitLimit` digits are refused
before they are computed.
-/

namespace VectorCalc.Text

/-- The most digits that are read as one number. -/
def digitLimit : Nat := 4300

namespace Integer

/-- Why a text is no integer. -/
inductive Fault where
  | malformed
  | tooLong (digits : Nat)
deriving DecidableEq

/-- White space that may surround the number; the separator controls are no part of it. -/
def isPadding (c : Char) : Bool := isBlank c && !(0x1C ≤ c.toNat && c.toNat ≤ 0x1F)

/-- The sign in front, `true` for minus, and what follows it. -/
def splitSign : List Char → Bool × List Char
  | '-' :: cs => (true, cs)
  | '+' :: cs => (false, cs)
  | cs => (false, cs)

/-- The character belongs to the body of a number. -/
def isBody (c : Char) : Bool := c = '_' || (decimalDigit? c).isSome

/-- The digits of a body in which each underscore stands between two digits. -/
def groups? : List Char → Option (List Nat)
  | [] => none
  | [c] => (decimalDigit? c).map fun d => [d]
  | c :: '_' :: cs => do
    let d ← decimalDigit? c
    let ds ← groups? cs
    return d :: ds
  | c :: cs => do
    let d ← decimalDigit? c
    let ds ← groups? cs
    return d :: ds

/-- The number that a text denotes. -/
def read (s : String) : Except Fault Int :=
  let (negative, cs) := splitSign (s.toList.dropWhile isPadding)
  match groups? (cs.takeWhile isBody) with
  | none => .error .malformed
  | some ds =>
    if ds.length > digitLimit then .error (.tooLong ds.length)
    else if (cs.dropWhile isBody).all isPadding then
      let n : Nat := ds.foldl (fun n d => 10 * n + d) 0
      .ok (if negative then -(n : Int) else (n : Int))
    else .error .malformed

end Integer

end VectorCalc.Text
