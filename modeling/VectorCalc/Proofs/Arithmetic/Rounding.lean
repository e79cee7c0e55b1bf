import Mathlib
import VectorCalc.Arithmetic.Rounding

/-!
# Rounding gives the nearest floating-point number

A whole number is rounded to one of `p` significant bits (`Short`). Of these it gets the nearest one,
and of two that are equally near the one that is the even multiple of their distance. This says what
rounding gives without telling how it is done (`Rounded`), and `rounded_roundInt` says that it is done
so.

Between the two neighbours of a number that are considered there is no other one of `p` bits: a shorter
unit would need more bits.
-/

namespace VectorCalc

/-- A whole number that a floating-point number of `p` significant bits stands for. -/
def Short (p : Nat) (n : Int) : Prop := ∃ (a : Int) (k : Nat), n = a * 2 ^ k ∧ a.natAbs < 2 ^ p

/-- The number `r` is `n` rounded to `p` significant bits. -/
structure Rounded (p : Nat) (n r : Int) : Prop where
  short : Short p r
  nearest : ∀ m, Short p m → |r - n| ≤ |m - n|
  /-- If another number is as near, then the distance of the two goes into `r` an even number of
  times. -/
  even : ∀ m, Short p m → m ≠ r → |m - n| = |r - n| → 2 * (m - r) ∣ r

variable {p : Nat} {n m r : Int}

/-! ## Signs -/

theorem Short.neg (h : Short p n) : Short p (-n) := by
  obtain ⟨a, k, rfl, ha⟩ := h
  refine ⟨-a, k, (neg_mul _ _).symm, ?_⟩
  rwa [Int.natAbs_neg]

theorem Rounded.neg (h : Rounded p n r) : Rounded p (-n) (-r) where
  short := h.short.neg
  nearest m hm := by
    have hle := h.nearest (-m) hm.neg
    have hr : -r - -n = -(r - n) := by ring
    have hm : m - -n = -(-m - n) := by ring
    rw [hr, hm, abs_neg, abs_neg]
    exact hle
  even m hm hne hdist := by
    have hr : -r - -n = -(r - n) := by ring
    have hm' : m - -n = -(-m - n) := by ring
    rw [hr, hm', abs_neg, abs_neg] at hdist
    have hdvd := h.even (-m) hm.neg (by omega) hdist
    have htwice : 2 * (m - -r) = -(2 * (-m - r)) := by ring
    rw [htwice, neg_dvd, dvd_neg]
    exact hdvd

/-! ## The neighbours of a number -/

section

variable {x : Nat}

/-- The distance of the neighbours of a number. -/
def unit (p x : Nat) : Nat := 2 ^ (x.log2 + 1 - p)

theorem div_unit_lt (p x : Nat) : x / unit p x < 2 ^ p := by
  rw [unit, Nat.div_lt_iff_lt_mul (Nat.two_pow_pos _), ← pow_add]
  calc x < 2 ^ (x.log2 + 1) := Nat.lt_log2_self
    _ ≤ 2 ^ (p + (x.log2 + 1 - p)) := Nat.pow_le_pow_right (by decide) (by omega)

/-- Where the neighbours are farther apart than one, all bits are needed for them. -/
theorem le_div_unit (hp : 0 < p) (h : 0 < x.log2 + 1 - p) : 2 ^ (p - 1) ≤ x / unit p x := by
  have hx : x ≠ 0 := by
    rintro rfl
    rw [Nat.log2_zero] at h
    omega
  rw [unit, Nat.le_div_iff_mul_le (Nat.two_pow_pos _), ← pow_add]
  calc 2 ^ (p - 1 + (x.log2 + 1 - p)) = 2 ^ x.log2 := by congr 1; omega
    _ ≤ x := Nat.log2_self_le hx

/-- No other number of `p` bits lies between the neighbours. -/
theorem short_cases (hp : 0 < p) (x : Nat) (h : Short p m) :
    m ≤ (x / unit p x : Nat) * unit p x ∨ ((x / unit p x : Nat) + 1) * unit p x ≤ m := by
  obtain ⟨a, k, rfl, ha⟩ := h
  have hq : x / unit p x < 2 ^ p := div_unit_lt p x
  have hlong := le_div_unit (x := x) hp
  unfold unit at *
  generalize x.log2 + 1 - p = j at *
  generalize x / 2 ^ j = q at *
  by_contra hbetween
  rw [not_or, not_le, not_le] at hbetween
  obtain ⟨hlow, hhigh⟩ := hbetween
  push_cast at hlow hhigh
  have hpos : (0 : Int) < 2 ^ j := by positivity
  rcases Nat.lt_or_ge k j with hk | hk
  · -- a shorter unit would need one bit more
    have hsize : (2 : Int) ^ (p - 1) ≤ q := by exact_mod_cast hlong (Nat.zero_lt_of_lt hk)
    have hbits : a < 2 ^ p := by
      have hle : a ≤ a.natAbs := Int.le_natAbs
      have hcast : (a.natAbs : Int) < 2 ^ p := by exact_mod_cast ha
      omega
    have hless : a * 2 ^ k < q * 2 ^ j := by
      calc a * 2 ^ k < 2 ^ p * 2 ^ k := mul_lt_mul_of_pos_right hbits (by positivity)
        _ ≤ 2 ^ p * 2 ^ (j - 1) := by gcongr <;> omega
        _ = 2 ^ (p - 1) * 2 ^ j := by
          rw [← pow_add, ← pow_add]
          congr 1
          omega
        _ ≤ q * 2 ^ j := by gcongr
    omega
  · -- a multiple of the unit is none of the numbers between two multiples in a row
    have hmul : a * 2 ^ k = a * 2 ^ (k - j) * 2 ^ j := by
      rw [mul_assoc, ← pow_add, Nat.sub_add_cancel hk]
    rw [hmul] at hlow hhigh
    have hlow' := lt_of_mul_lt_mul_right hlow hpos.le
    have hhigh' := lt_of_mul_lt_mul_right hhigh hpos.le
    omega

theorem short_neighbours (hp : 0 < p) (x : Nat) :
    Short p ((x / unit p x : Nat) * unit p x) ∧ Short p (((x / unit p x : Nat) + 1) * unit p x) := by
  have hq : x / unit p x < 2 ^ p := div_unit_lt p x
  unfold unit at *
  generalize x.log2 + 1 - p = j at *
  generalize x / 2 ^ j = q at *
  push_cast
  constructor
  · exact ⟨q, j, rfl, hq⟩
  · rcases Nat.lt_or_ge (q + 1) (2 ^ p) with hlt | hge
    · exact ⟨q + 1, j, rfl, hlt⟩
    · -- the greatest neighbour is a power of two
      have hcarry : (q : Int) + 1 = 2 ^ p := by
        have heq : q + 1 = 2 ^ p := by omega
        exact_mod_cast heq
      refine ⟨1, p + j, ?_, Nat.one_lt_two_pow hp.ne'⟩
      rw [hcarry, pow_add, one_mul]

/-- The nearer neighbour is taken, and the even one if both are equally near. -/
theorem roundNat_cases (p x : Nat) :
    (roundNat p x = x / unit p x * unit p x ∧
      (2 * (x % unit p x) < unit p x ∨
        2 * (x % unit p x) = unit p x ∧ x / unit p x % 2 = 0)) ∨
    (roundNat p x = (x / unit p x + 1) * unit p x ∧
      (unit p x < 2 * (x % unit p x) ∨
        2 * (x % unit p x) = unit p x ∧ x / unit p x % 2 = 1)) := by
  have hunit : 1 <<< (x.log2 + 1 - p) = unit p x := by
    rw [unit, Nat.one_shiftLeft]
  rw [roundNat, hunit]
  split_ifs with h
  · exact .inr ⟨rfl, h.imp id fun h => ⟨h.1.symm, h.2⟩⟩
  · exact .inl ⟨rfl, by omega⟩

end

/-! ## Rounding -/

theorem rounded_roundNat (hp : 0 < p) (x : Nat) : Rounded p x (roundNat p x) := by
  obtain ⟨hlow, hhigh⟩ := short_neighbours hp x
  have hcases := fun m (hm : Short p m) => short_cases hp x hm
  have hrest : (x : Int) = (x / unit p x : Nat) * unit p x + (x % unit p x : Nat) := by
    exact_mod_cast (Nat.div_add_mod' x (unit p x)).symm
  have hlt : x % unit p x < unit p x := Nat.mod_lt _ (Nat.two_pow_pos _)
  have hround := roundNat_cases p x
  generalize unit p x = u at *
  generalize x / u = q at *
  generalize x % u = t at *
  have hnext : ((q : Int) + 1) * u = q * u + u := by ring
  rw [hnext] at hhigh
  simp only [hnext] at hcases
  rcases hround with ⟨hr, hnear⟩ | ⟨hr, hnear⟩
  · rw [hr]
    push_cast
    have hdist : |(q : Int) * u - x| = t := by
      rw [abs_of_nonpos (by omega)]
      omega
    refine ⟨hlow, fun m hm => ?_, fun m hm hne heq => ?_⟩
    · rw [hdist, le_abs]
      have := hcases m hm
      omega
    · -- the other neighbour is as near only if the remainder is half a unit
      rw [hdist] at heq
      have := hcases m hm
      have hm : m - q * u = u ∧ 2 * t = u := by
        rcases abs_choice (m - x) with h | h <;> omega
      obtain ⟨c, hc⟩ : ∃ c, q = 2 * c := ⟨q / 2, by omega⟩
      rw [hm.1, hc]
      exact ⟨c, by push_cast; ring⟩
  · rw [hr]
    push_cast
    rw [hnext]
    have hdist : |(q : Int) * u + u - x| = u - t := by
      rw [abs_of_nonneg (by omega)]
      omega
    refine ⟨hhigh, fun m hm => ?_, fun m hm hne heq => ?_⟩
    · rw [hdist, le_abs]
      have := hcases m hm
      omega
    · rw [hdist] at heq
      have := hcases m hm
      have hm : m - (q * u + u) = -u ∧ 2 * t = u := by
        rcases abs_choice (m - x) with h | h <;> omega
      obtain ⟨c, hc⟩ : ∃ c, q + 1 = 2 * c := ⟨q / 2 + 1, by omega⟩
      have hc' : (q : Int) + 1 = 2 * c := by exact_mod_cast hc
      rw [hm.1, ← hnext, hc']
      exact ⟨-c, by ring⟩

/-- A whole number is rounded to the nearest one of `p` bits, and to the even one of two that are equally
near. -/
theorem rounded_roundInt (hp : 0 < p) (n : Int) : Rounded p n (roundInt p n) := by
  cases n with
  | ofNat x => exact rounded_roundNat hp x
  | negSucc x =>
    have h := (rounded_roundNat hp (x + 1)).neg
    exact h

/-- A number of `p` bits is not changed. -/
theorem roundInt_of_short (hp : 0 < p) (h : Short p n) : roundInt p n = n := by
  have hle := (rounded_roundInt hp n).nearest n h
  rw [sub_self, abs_zero] at hle
  exact sub_eq_zero.1 (abs_nonpos_iff.1 hle)

/-- Rounding does not pass a number of `p` bits. -/
theorem le_roundInt (hp : 0 < p) (hm : Short p m) (h : m ≤ n) : m ≤ roundInt p n := by
  by_contra hlt
  have hle := (rounded_roundInt hp n).nearest m hm
  rw [abs_of_nonpos (by omega), abs_of_nonpos (by omega)] at hle
  omega

theorem roundInt_le (hp : 0 < p) (hm : Short p m) (h : n ≤ m) : roundInt p n ≤ m := by
  by_contra hlt
  have hle := (rounded_roundInt hp n).nearest m hm
  rw [abs_of_nonneg (by omega), abs_of_nonneg (by omega)] at hle
  omega

end VectorCalc
