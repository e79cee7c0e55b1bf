import Mathlib
import VectorCalc.Expr.Parse

/-!
# Numbers of a line

A number is read if it fits into 64 bits with its sign and has no more digits than are read at all.
The parser looks at the length of a number before it computes it; `number_eq_ok_iff` says that this
refuses no number that fits.
-/

namespace VectorCalc.Expr.Parse

open Token

/-! ## Digits -/

/-- Zeros in front do not count. -/
theorem ofDigitChars_dropWhile (cs : List Char) :
    Nat.ofDigitChars 10 (cs.dropWhile (· = '0')) 0 = Nat.ofDigitChars 10 cs 0 := by
  induction cs with
  | nil => rfl
  | cons c cs ih =>
    by_cases hc : c = '0'
    · rw [hc, List.dropWhile_cons_of_pos (by decide), ih, Nat.ofDigitChars_cons]
      rfl
    · rw [List.dropWhile_cons_of_neg (by simpa using hc)]

/-- A digit other than zero is worth one at least. -/
theorem one_le_digit {c : Char} (hd : c.isDigit = true) (hc : c ≠ '0') :
    1 ≤ c.toNat - '0'.toNat := by
  have hle : '0'.toNat ≤ c.toNat := (Char.isDigit_iff_toNat.1 hd).1
  have hne : c.toNat ≠ '0'.toNat := fun h => hc (Char.toNat_inj.1 h)
  omega

/-- A number of `n` digits that does not begin with zero is not less than ten to the power of
`n - 1`. -/
theorem pow_le_ofDigitChars {c : Char} {cs : List Char} (hd : c.isDigit = true) (hc : c ≠ '0') :
    10 ^ cs.length ≤ Nat.ofDigitChars 10 (c :: cs) 0 := by
  have hone := one_le_digit hd hc
  rw [Nat.ofDigitChars_cons, Nat.ofDigitChars_eq_ofDigitChars_zero, Nat.mul_zero, Nat.zero_add]
  calc 10 ^ cs.length = 10 ^ cs.length * 1 := (Nat.mul_one _).symm
    _ ≤ 10 ^ cs.length * (c.toNat - '0'.toNat) := Nat.mul_le_mul_left _ hone
    _ ≤ _ := Nat.le_add_right _ _

/-- A number below ten to the power of `significantLimit` has no more significant digits. -/
theorem length_significant_le {cs : List Char} (hd : ∀ c ∈ cs, c.isDigit = true)
    (h : Nat.ofDigitChars 10 cs 0 < 10 ^ significantLimit) :
    (cs.dropWhile (· = '0')).length ≤ significantLimit := by
  cases hdrop : cs.dropWhile (· = '0') with
  | nil => exact Nat.zero_le _
  | cons c rest =>
    have hmem : c ∈ cs := (List.dropWhile_suffix _).mem (hdrop ▸ List.mem_cons_self)
    have hne : c ≠ '0' := by
      have hhead := List.head_dropWhile_not (· = '0') (hdrop ▸ List.cons_ne_nil c rest)
      simpa [hdrop] using hhead
    have hpow : 10 ^ rest.length ≤ Nat.ofDigitChars 10 (c :: rest) 0 :=
      pow_le_ofDigitChars (hd c hmem) hne
    rw [← hdrop, ofDigitChars_dropWhile] at hpow
    -- a longer number would not be below the power
    have hlt := (Nat.pow_lt_pow_iff_right (by decide)).1 (hpow.trans_lt h)
    rw [List.length_cons]
    exact hlt

/-! ## Words -/

theorem fitsWord_iff {x : Int} : fitsWord x = true ↔ -2 ^ 63 ≤ x ∧ x < 2 ^ 63 := by
  have hmin : Int64.minValue.toInt = -2 ^ 63 := by decide
  have hmax : Int64.maxValue.toInt = 2 ^ 63 - 1 := by decide
  rw [fitsWord, hmin, hmax, Bool.and_eq_true, decide_eq_true_eq, decide_eq_true_eq]
  omega

/-- The word of a number that fits denotes that number, and no other word does. -/
theorem ofInt_eq_iff {x : Int} {n : Int64} :
    fitsWord x = true ∧ Int64.ofInt x = n ↔ n.toInt = x := by
  constructor
  · rintro ⟨hfits, rfl⟩
    obtain ⟨hle, hlt⟩ := fitsWord_iff.1 hfits
    exact Int64.toInt_ofInt_of_le hle hlt
  · rintro rfl
    exact ⟨fitsWord_iff.2 ⟨n.le_toInt, n.toInt_lt⟩, Int64.ofInt_toInt n⟩

/-! ## Numbers -/

/-- What the digits of a token denote, with a sign if one belongs to it. -/
def valueOf (negative : Bool) (token : Token) : Int :=
  if negative then -(Nat.ofDigitChars 10 token.text.toList 0 : Int)
  else (Nat.ofDigitChars 10 token.text.toList 0 : Int)

/-- The token denotes the word `n`, and has no more digits than are read. -/
def Numeral (negative : Bool) (token : Token) (n : Int64) : Prop :=
  token.text.toList.length ≤ Text.digitLimit ∧ n.toInt = valueOf negative token

theorem natAbs_valueOf (negative : Bool) (token : Token) :
    (valueOf negative token).natAbs = Nat.ofDigitChars 10 token.text.toList 0 := by
  cases negative
  · exact Int.natAbs_natCast _
  · exact (Int.natAbs_neg _).trans (Int.natAbs_natCast _)

/-- A number that fits into a word passes the look at its length. -/
theorem significant_of_fits {negative : Bool} {token : Token}
    (hd : ∀ c ∈ token.text.toList, c.isDigit = true)
    (h : fitsWord (valueOf negative token) = true) :
    (token.text.toList.dropWhile (· = '0')).length ≤ significantLimit := by
  apply length_significant_le hd
  have hfits := fitsWord_iff.1 h
  have habs : (valueOf negative token).natAbs ≤ 2 ^ 63 := by omega
  rw [natAbs_valueOf] at habs
  exact lt_of_le_of_lt habs (by decide)

theorem number_eq (negative : Bool) (token : Token) :
    number negative token =
      if significantLimit < (token.text.toList.dropWhile (· = '0')).length then
        .error (faultAt token .numberOutOfRange [])
      else if Text.digitLimit < token.text.toList.length then
        .error (.outOfDomain (.digits token.text.toList.length))
      else if fitsWord (valueOf negative token) then .ok (Int64.ofInt (valueOf negative token))
      else .error (faultAt token .numberOutOfRange []) := rfl

/-- A number is read if it fits and has no more digits than are read, and only then. -/
theorem number_eq_ok_iff {negative : Bool} {token : Token} {n : Int64}
    (hd : ∀ c ∈ token.text.toList, c.isDigit = true) :
    number negative token = .ok n ↔ Numeral negative token n := by
  rw [number_eq, Numeral, ← ofInt_eq_iff]
  constructor
  · intro h
    split_ifs at h with hsig hlen hfits
    exact ⟨Nat.le_of_not_lt hlen, hfits, Except.ok.inj h⟩
  · rintro ⟨hlen, hfits, rfl⟩
    have hsig := significant_of_fits hd hfits
    rw [if_neg (Nat.not_lt.2 hsig), if_neg (Nat.not_lt.2 hlen), if_pos hfits]

end VectorCalc.Expr.Parse
