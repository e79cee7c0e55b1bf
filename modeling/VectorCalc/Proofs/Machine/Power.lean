import VectorCalc.Proofs.Arithmetic.Rounding
import VectorCalc.Proofs.Machine.Itemwise

/-!
# Powers

A power is computed as a floating-point number. Both operands are rounded to it, the power of what they
are rounded to is rounded again, and the nearest end of the range stands for a result outside of it. So
a power is exact where its operands and its result have no more bits than a floating-point number keeps,
and it stays in the range in any case.

An exponent beyond the number of bits is replaced by a small one of the same parity, so that the power
can be computed. It leads out of the range on the same side, unless the base is one in size or zero,
where only the parity counts (`saturate_tame`).
-/

namespace VectorCalc

namespace Width

variable {w : Width} {n x y : Int} {e : Nat}

/-! ## The range -/

theorem precision_pos (w : Width) : 0 < w.precision := by
  cases w <;> decide

/-- What lies outside the range is put to its nearest end. -/
theorem toInt_saturate (w : Width) (n : Int) :
    (w.saturate n).toInt = max w.least (min n w.greatest) := by
  have hrange : -2 ^ 63 ≤ w.least ∧ w.least ≤ w.greatest ∧ w.greatest < 2 ^ 63 := by
    cases w <;> decide
  rw [saturate]
  exact Int64.toInt_ofInt_of_le (by omega) (by omega)

/-! ## Exponents -/

/-- All numbers above the range are put to its greatest word. -/
theorem saturate_above (h : 2 ^ w.bits ≤ n) :
    w.saturate (roundInt w.precision n) = w.saturate w.greatest := by
  have hshort : Short w.precision (2 ^ w.bits) :=
    ⟨1, w.bits, (one_mul _).symm, Nat.one_lt_two_pow w.precision_pos.ne'⟩
  have hround := le_roundInt w.precision_pos hshort h
  have hgreatest : w.greatest ≤ 2 ^ w.bits := by
    cases w <;> decide
  rw [saturate, saturate, min_eq_right (hgreatest.trans hround), min_self]

theorem saturate_below (h : n ≤ -2 ^ w.bits) :
    w.saturate (roundInt w.precision n) = w.saturate w.least := by
  have hshort : Short w.precision (2 ^ w.bits) :=
    ⟨1, w.bits, (one_mul _).symm, Nat.one_lt_two_pow w.precision_pos.ne'⟩
  have hround := roundInt_le w.precision_pos hshort.neg h
  have hleast : -2 ^ w.bits ≤ w.least ∧ w.least ≤ w.greatest := by
    cases w <;> decide
  rw [saturate, saturate, max_eq_left (by omega), max_eq_left (by omega)]

/-- The power of a number greater than one in size with an exponent beyond the number of bits. -/
theorem two_pow_le_pow (hx : 2 ≤ x) (he : w.bits ≤ e) : 2 ^ w.bits ≤ x ^ e := by
  calc (2 : Int) ^ w.bits ≤ 2 ^ e := pow_le_pow_right₀ (by decide) he
    _ ≤ x ^ e := pow_le_pow_left₀ (by decide) hx e

theorem tameExponent_cases (w : Width) (e : Nat) :
    w.tameExponent e = e ∨ w.bits ≤ w.tameExponent e ∧ w.bits ≤ e ∧ w.tameExponent e % 2 = e % 2 := by
  have hbits : w.bits % 2 = 0 := by
    cases w <;> rfl
  unfold tameExponent
  split_ifs with h
  · exact .inl rfl
  · right
    omega

/-- Powers of numbers of size one, and of zero, depend on the parity only. -/
theorem pow_congr {e e' : Nat} (hx : x.natAbs ≤ 1) (he : 0 < e) (he' : 0 < e')
    (hparity : e % 2 = e' % 2) : x ^ e = x ^ e' := by
  obtain rfl | rfl | rfl : x = 0 ∨ x = 1 ∨ x = -1 := by omega
  · rw [zero_pow he.ne', zero_pow he'.ne']
  · rw [one_pow, one_pow]
  · rw [neg_one_pow_eq_pow_mod_two, neg_one_pow_eq_pow_mod_two (n := e'), hparity]

theorem bits_pos (w : Width) : 0 < w.bits := by
  cases w <;> decide

/-- The small exponent makes no difference to what is kept of the power. -/
theorem saturate_tame (w : Width) (x : Int) (e : Nat) :
    w.saturate (roundInt w.precision (x ^ w.tameExponent e)) =
      w.saturate (roundInt w.precision (x ^ e)) := by
  rcases w.tameExponent_cases e with htame | ⟨htame, he, hparity⟩
  · rw [htame]
  generalize w.tameExponent e = t at *
  have hpos := w.bits_pos
  rcases Nat.lt_or_ge 1 x.natAbs with hlarge | hsmall
  · rcases Int.lt_or_le x 0 with hneg | hnonneg
    · -- the powers have the sign that the parity tells
      have hsize : 2 ≤ -x := by omega
      have hflip : ∀ k, x ^ k = (- -x) ^ k := fun k => by rw [neg_neg]
      rcases Nat.even_or_odd t with heven | hodd
      · have heven' : Even e := by
          rw [Nat.even_iff] at heven ⊢
          omega
        rw [hflip t, hflip e, heven.neg_pow, heven'.neg_pow,
          saturate_above (two_pow_le_pow hsize htame), saturate_above (two_pow_le_pow hsize he)]
      · have hodd' : Odd e := by
          rw [Nat.odd_iff] at hodd ⊢
          omega
        rw [hflip t, hflip e, hodd.neg_pow, hodd'.neg_pow,
          saturate_below (neg_le_neg (two_pow_le_pow hsize htame)),
          saturate_below (neg_le_neg (two_pow_le_pow hsize he))]
    · have hsize : 2 ≤ x := by omega
      rw [saturate_above (two_pow_le_pow hsize htame), saturate_above (two_pow_le_pow hsize he)]
  · rw [pow_congr hsmall (by omega) (by omega) hparity]

/-! ## Powers -/

/-- The whole part of a fraction with the numerator one. -/
theorem one_tdiv_of_one (hx : x.natAbs = 1) : Int.tdiv 1 x = x := by
  obtain rfl | rfl : x = 1 ∨ x = -1 := by omega
  · rfl
  · rfl

theorem one_tdiv_of_large (hx : 1 < x.natAbs) : Int.tdiv 1 x = 0 := by
  rw [← Int.natAbs_eq_zero, Int.natAbs_tdiv]
  exact Nat.div_eq_of_lt hx

/-- A power with an exponent that is not negative is the power of the rounded operands, rounded. -/
theorem power_of_nonneg (hy : 0 ≤ roundInt w.precision y) :
    w.power x y = w.saturate
      (roundInt w.precision (roundInt w.precision x ^ (roundInt w.precision y).toNat)) := by
  rw [power]
  cases h : roundInt w.precision y with
  | ofNat k => exact w.saturate_tame _ k
  | negSucc k =>
    rw [h] at hy
    cases hy

/-- A negative power of zero is infinite, and one of any other number is a fraction, of which the whole
part is kept. -/
theorem power_of_neg (hy : roundInt w.precision y < 0) :
    w.power x y = w.saturate
      (if roundInt w.precision x = 0 then w.greatest
        else Int.tdiv 1 (roundInt w.precision x ^ (roundInt w.precision y).natAbs)) := by
  rw [power]
  cases h : roundInt w.precision y with
  | ofNat k =>
    rw [h] at hy
    exact absurd hy (Int.not_lt.2 (Int.natCast_nonneg k))
  | negSucc k =>
    generalize roundInt w.precision x = z
    congr 1
    show (if z = 0 then w.greatest
      else if z.natAbs = 1 then z ^ w.tameExponent (k + 1) else 0) = _
    have hsize : (z ^ (k + 1)).natAbs = z.natAbs ^ (k + 1) := Int.natAbs_pow z (k + 1)
    split_ifs with hzero hone
    · rfl
    · have hunit : (z ^ (k + 1)).natAbs = 1 := by
        rw [hsize, hone, one_pow]
      have hpow : z ^ w.tameExponent (k + 1) = z ^ (k + 1) := by
        have hbits := w.bits_pos
        rcases w.tameExponent_cases (k + 1) with htame | ⟨htame, -, hparity⟩
        · rw [htame]
        · exact pow_congr hone.le (by omega) (by omega) hparity
      exact hpow.trans (one_tdiv_of_one hunit).symm
    · have hlarge : 1 < (z ^ (k + 1)).natAbs := by
        rw [hsize]
        exact Nat.one_lt_pow k.succ_ne_zero (by omega)
      exact (one_tdiv_of_large hlarge).symm

/-- A power stays between the least and the greatest word. -/
theorem power_mem (w : Width) (x y : Int) :
    w.least ≤ (w.power x y).toInt ∧ (w.power x y).toInt ≤ w.greatest := by
  have hrange : w.least ≤ w.greatest := by
    cases w <;> decide
  rw [power, toInt_saturate]
  omega

/-- A power is exact if its operands and the exact power have no more bits than are kept, and if that is a
word; or else the nearest end of the range stands for it. -/
theorem toInt_power (hx : Short w.precision x) (hy : Short w.precision y) (hpos : 0 ≤ y)
    (hpow : Short w.precision (x ^ y.toNat)) :
    (w.power x y).toInt = max w.least (min (x ^ y.toNat) w.greatest) := by
  have hx' := roundInt_of_short w.precision_pos hx
  have hy' := roundInt_of_short w.precision_pos hy
  rw [power_of_nonneg (hy'.symm ▸ hpos), hx', hy', roundInt_of_short w.precision_pos hpow,
    toInt_saturate]

/-- The same for a negative exponent. -/
theorem toInt_power_of_neg (hx : Short w.precision x) (hy : Short w.precision y) (hneg : y < 0) :
    (w.power x y).toInt = max w.least
      (min (if x = 0 then w.greatest else Int.tdiv 1 (x ^ y.natAbs)) w.greatest) := by
  have hx' := roundInt_of_short w.precision_pos hx
  have hy' := roundInt_of_short w.precision_pos hy
  rw [power_of_neg (hy'.symm ▸ hneg), hx', hy', toInt_saturate]

end Width

namespace Run

/-- The operator `**` on two integers gives a word of the range. Where the integers have no more bits than
a floating-point number keeps, it gives the exact power that has no more bits either, or the end of the
range that is nearest to it; with a negative exponent it gives the whole part of the fraction, and the
greatest word for a power of zero. -/
theorem binary_power {s : Settings} {m : Machine} {x y z : Int64}
    (h : (binary s "**" (.value (.int x)) (.value (.int y)) m).1 = .ok (.int z)) :
    (s.width.least ≤ z.toInt ∧ z.toInt ≤ s.width.greatest) ∧
    (Short s.width.precision x.toInt → Short s.width.precision y.toInt →
      (0 ≤ y.toInt → Short s.width.precision (x.toInt ^ y.toInt.toNat) →
        z.toInt = max s.width.least (min (x.toInt ^ y.toInt.toNat) s.width.greatest)) ∧
      (y.toInt < 0 → z.toInt = max s.width.least
        (min (if x.toInt = 0 then s.width.greatest else Int.tdiv 1 (x.toInt ^ y.toInt.natAbs))
          s.width.greatest))) := by
  have hop : BinaryOp.ofSymbol? "**" = some .power := rfl
  have hz : z.toInt = (s.width.power x.toInt y.toInt).toInt := toInt_of_binary hop rfl h
  rw [hz]
  exact ⟨s.width.power_mem _ _, fun hx hy => ⟨Width.toInt_power hx hy, Width.toInt_power_of_neg hx hy⟩⟩

/-- Ten to the power of nineteen is beyond the range, and two to the power of minus one is less than
one. -/
example :
    (binary .default "**" (.value (.int 10)) (.value (.int 19)) .new).1 =
        .ok (.int Int64.maxValue) ∧
      (binary .default "**" (.value (.int 2)) (.value (.int (-1))) .new).1 = .ok (.int 0) := by
  decide +kernel

end Run

end VectorCalc
