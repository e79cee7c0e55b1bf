import VectorCalc.Proofs.Machine.Shapes

/-!
# Binary operators, item by item

A binary operator is a rule for two integers. On two vectors of the same length it is the same rule at
each place, and on anything else it is refused. `BinaryOp.Refused` lists the causes of a refusal in the
order in which they are found out: the operator does not exist, an integer meets a vector, the lengths
of two vectors differ, and, with words of 32 bits, an operand is too large, the left one before the
right one. `Run.binary_itemwise` says that there are no other causes, and what the result is where there
is none.

A sum, a difference or a product of two integers is the exact one, reduced to the signed range of the
words. A minimum or a maximum is the exact one.
-/

namespace VectorCalc

/-! ## Words -/

namespace Width

variable {w : Width} {n : Int} {v : Value}

/-- What is kept of a number is the number reduced to the signed range of the width. -/
theorem toInt_wrap (w : Width) (n : Int) : (w.wrap n).toInt = n.bmod (2 ^ w.bits) := by
  cases w with
  | bits64 => exact Int64.toInt_ofInt
  | bits32 =>
    show (Int32.ofInt n).toInt64.toInt = n.bmod Int32.size
    rw [Int32.toInt_toInt64, Int32.toInt_ofInt]

theorem fits_iff : w.fits n = true ↔ -2 ^ (w.bits - 1) ≤ n ∧ n < 2 ^ (w.bits - 1) := by
  cases w with
  | bits64 => exact Expr.Parse.fitsWord_iff
  | bits32 =>
    have hleast : Width.bits32.least = -2 ^ 31 := by decide
    have hgreatest : Width.bits32.greatest = 2 ^ 31 - 1 := by decide
    show Width.bits32.fits n = true ↔ -2 ^ 31 ≤ n ∧ n < 2 ^ 31
    rw [fits, hleast, hgreatest, Bool.and_eq_true, decide_eq_true_eq, decide_eq_true_eq]
    omega

/-- A word is its own reduction. -/
theorem bmod_of_fits (h : w.fits n = true) : n.bmod (2 ^ w.bits) = n := by
  obtain ⟨hle, hlt⟩ := fits_iff.1 h
  have hpow : (2 : Int) ^ w.bits = 2 * 2 ^ (w.bits - 1) := by
    cases w <;> rfl
  apply Int.bmod_eq_of_le_mul_two
  · push_cast
    omega
  · push_cast
    omega

/-- The width takes a value whose integers are words. -/
theorem admit_of_fits (h : ∀ n ∈ v.toList, w.fits n.toInt = true) : w.admit v = .ok () :=
  if_pos (List.all_eq_true.2 h)

theorem admit_of_not_fits {n : Int64} (hn : n ∈ v.toList) (h : w.fits n.toInt = false) :
    w.admit v = .error (.unsupported (.doesNotFit v w.bits)) := by
  refine if_neg fun hall => ?_
  rw [List.all_eq_true.1 hall n hn] at h
  cases h

end Width

/-- The integers of a value are words of 32 bits. -/
def Value.IsInt32 (v : Value) : Prop := ∀ n ∈ v.toList, -2 ^ 31 ≤ n.toInt ∧ n.toInt < 2 ^ 31

namespace Width

variable {w : Width} {v : Value}

/-- All integers are words of 64 bits. -/
theorem fits_of_isInt32 (h : w = .bits32 → v.IsInt32) : ∀ n ∈ v.toList, w.fits n.toInt = true := by
  intro n hn
  cases w with
  | bits64 => exact fits_toInt n
  | bits32 => exact fits_iff.2 (h rfl n hn)

theorem admit_of_isInt32 (h : w = .bits32 → v.IsInt32) : w.admit v = .ok () :=
  admit_of_fits (fits_of_isInt32 h)

theorem admit_of_not_isInt32 (hw : w = .bits32) (h : ¬ v.IsInt32) :
    w.admit v = .error (.unsupported (.doesNotFit v 32)) := by
  subst hw
  obtain ⟨n, hn, hrange⟩ : ∃ n ∈ v.toList, ¬ (-2 ^ 31 ≤ n.toInt ∧ n.toInt < 2 ^ 31) := by
    simpa only [Value.IsInt32, not_forall, exists_prop] using h
  exact admit_of_not_fits hn (Bool.eq_false_iff.2 fun hfits => hrange (fits_iff.1 hfits))

end Width

/-! ## Causes of a refusal -/

namespace BinaryOp

/-- How the binary operators are written. -/
def symbols : List String := ["+", "-", "*", "**", "min", "max"]

variable {w : Width} {op : BinaryOp} {symbol : String} {l r : Value} {cause : Unsupported}

theorem mem_symbols_iff : symbol ∈ symbols ↔ ∃ op, ofSymbol? symbol = some op := by
  constructor
  · intro h
    simp only [symbols, List.mem_cons, List.not_mem_nil, or_false] at h
    rcases h with rfl | rfl | rfl | rfl | rfl | rfl <;> exact ⟨_, rfl⟩
  · rintro ⟨op, h⟩
    rw [ofSymbol?_eq_some_iff.1 h]
    cases op <;> decide

/-- Why an operator is refused. Each cause excludes the ones before it. -/
inductive Refused (w : Width) (symbol : String) : Value → Value → Unsupported → Prop where
  | unknown (hs : symbol ∉ symbols) (l r : Value) : Refused w symbol l r (.unknownBinary symbol)
  | kinds (hs : symbol ∈ symbols) {l r : Value} (h : l.kind ≠ r.kind) :
    Refused w symbol l r (.mixedOperands symbol l.kind r.kind)
  | lengths (hs : symbol ∈ symbols) {u v : Items} (h : u.length ≠ v.length) :
    Refused w symbol (.vector u) (.vector v) (.lengthMismatch symbol u.length v.length)
  | left (hs : symbol ∈ symbols) {l r : Value} (h : l.SameShape r) (hw : w = .bits32)
    (hl : ¬ l.IsInt32) : Refused w symbol l r (.doesNotFit l 32)
  | right (hs : symbol ∈ symbols) {l r : Value} (h : l.SameShape r) (hw : w = .bits32)
    (hl : l.IsInt32) (hr : ¬ r.IsInt32) : Refused w symbol l r (.doesNotFit r 32)

/-- An operator that exists is refused, or its operands have the same shape and the width takes them. -/
theorem refused_or (w : Width) (hs : symbol ∈ symbols) (l r : Value) :
    (∃ cause, Refused w symbol l r cause) ∨
      l.SameShape r ∧ (w = .bits32 → l.IsInt32) ∧ (w = .bits32 → r.IsInt32) := by
  by_cases hkind : l.kind = r.kind
  · by_cases hlength : l.toList.length = r.toList.length
    · have hshape : l.SameShape r := ⟨hkind, hlength⟩
      by_cases hl : w = .bits32 → l.IsInt32
      · by_cases hr : w = .bits32 → r.IsInt32
        · exact .inr ⟨hshape, hl, hr⟩
        · obtain ⟨hw, hr⟩ := Classical.not_imp.1 hr
          exact .inl ⟨_, .right hs hshape hw (hl hw) hr⟩
      · obtain ⟨hw, hl⟩ := Classical.not_imp.1 hl
        exact .inl ⟨_, .left hs hshape hw hl⟩
    · -- integers have the same length, so these are vectors
      cases l with
      | int x =>
        cases r with
        | int y => exact absurd rfl hlength
        | vector v => cases hkind
      | vector u =>
        cases r with
        | int y => cases hkind
        | vector v => exact .inl ⟨_, .lengths hs hlength⟩
  · exact .inl ⟨_, .kinds hs hkind⟩

/-! ## Operators on values -/

/-- Operands of the same shape are checked one after the other and then combined. -/
theorem apply_of_sameShape (w : Width) (op : BinaryOp) (h : l.SameShape r) :
    ∃ v, v.SameShape l ∧ v.toList = l.toList.zipWith (op.combine w) r.toList ∧
      op.apply w l r = (do
        w.admit l
        w.admit r
        return v) := by
  obtain ⟨hkind, hlength⟩ := h
  cases l with
  | int x =>
    cases r with
    | int y => exact ⟨.int (op.combine w x y), ⟨rfl, rfl⟩, rfl, rfl⟩
    | vector v => cases hkind
  | vector u =>
    cases r with
    | int y => cases hkind
    | vector v =>
      refine ⟨.vector (u.zipWith (op.combine w) v), ⟨rfl, ?_⟩, rfl, ?_⟩
      · have hlength' : u.toList.length = v.toList.length := hlength
        show (u.toList.zipWith (op.combine w) v.toList).length = u.toList.length
        rw [List.length_zipWith, hlength', Nat.min_self]
      · have hlength' : u.length = v.length := hlength
        rw [apply, applyWith, if_neg (not_not.2 hlength')]

theorem apply_of_refused (hop : ofSymbol? symbol = some op) (h : Refused w symbol l r cause) :
    op.apply w l r = .error (.unsupported cause) := by
  have hsymbol := ofSymbol?_eq_some_iff.1 hop
  cases h with
  | unknown hs => exact absurd (mem_symbols_iff.2 ⟨op, hop⟩) hs
  | kinds _ h =>
    rw [hsymbol]
    cases l with
    | int x =>
      cases r with
      | int y => exact absurd rfl h
      | vector v => rfl
    | vector u =>
      cases r with
      | int y => rfl
      | vector v => exact absurd rfl h
  | lengths _ h =>
    rw [hsymbol, apply, applyWith, if_pos h]
    rfl
  | left _ h hw hl =>
    obtain ⟨v, -, -, happly⟩ := apply_of_sameShape w op h
    rw [happly, Width.admit_of_not_isInt32 hw hl]
    rfl
  | right _ h hw hl hr =>
    obtain ⟨v, -, -, happly⟩ := apply_of_sameShape w op h
    rw [happly, Width.admit_of_isInt32 fun _ => hl, Width.admit_of_not_isInt32 hw hr]
    rfl

/-- Operands of the same shape that the width takes are combined at each place. -/
theorem apply_of_taken (w : Width) (op : BinaryOp) (h : l.SameShape r)
    (hl : w = .bits32 → l.IsInt32) (hr : w = .bits32 → r.IsInt32) :
    ∃ v, op.apply w l r = .ok v ∧ v.SameShape l ∧
      v.toList = l.toList.zipWith (op.combine w) r.toList := by
  obtain ⟨v, hshape, hitems, happly⟩ := apply_of_sameShape w op h
  refine ⟨v, ?_, hshape, hitems⟩
  rw [happly, Width.admit_of_isInt32 hl, Width.admit_of_isInt32 hr]
  rfl

/-! ## Operators on integers -/

/-- The exact sum, difference or product, reduced to the signed range. -/
theorem toInt_add (w : Width) (x y : Int64) :
    (add.combine w x y).toInt = (x.toInt + y.toInt).bmod (2 ^ w.bits) := w.toInt_wrap _

theorem toInt_subtract (w : Width) (x y : Int64) :
    (subtract.combine w x y).toInt = (x.toInt - y.toInt).bmod (2 ^ w.bits) := w.toInt_wrap _

theorem toInt_multiply (w : Width) (x y : Int64) :
    (multiply.combine w x y).toInt = (x.toInt * y.toInt).bmod (2 ^ w.bits) := w.toInt_wrap _

/-- The lesser or the greater of two words. -/
theorem toInt_minimum (w : Width) (x y : Int64) :
    (minimum.combine w x y).toInt = min x.toInt y.toInt := by
  show (if x ≤ y then x else y).toInt = _
  split_ifs with h
  · rw [min_eq_left (Int64.le_iff_toInt_le.1 h)]
  · have hle := Int64.le_iff_toInt_le.not.1 h
    rw [min_eq_right (by omega)]

theorem toInt_maximum (w : Width) (x y : Int64) :
    (maximum.combine w x y).toInt = max x.toInt y.toInt := by
  show (if x ≤ y then y else x).toInt = _
  split_ifs with h
  · rw [max_eq_right (Int64.le_iff_toInt_le.1 h)]
  · have hle := Int64.le_iff_toInt_le.not.1 h
    rw [max_eq_left (by omega)]

end BinaryOp

/-! ## Operators by their symbols -/

namespace Run

open BinaryOp

variable {s : Settings} {symbol : String} {l r : Value} {cause : Unsupported} {op : BinaryOp}

theorem binary_of_known (m : Machine) (hop : ofSymbol? symbol = some op) (l r : Datum) :
    (binary s symbol l r m).1 = op.applyData s.width (op.combine s.width) l r := by
  rw [binary_eq, hop]
  rfl

/-- An operator that exists is never reported as unknown, whatever its operands are. -/
theorem applyData_ne_unknown (w : Width) (op : BinaryOp) (l r : Datum) :
    op.applyData w (op.combine w) l r ≠ .error (.unsupported (.unknownBinary symbol)) := by
  intro h
  cases l with
  | foreign host => cases h
  | value l =>
    cases r with
    | foreign host => cases h
    | value r => cases op.apply_failsOnly w l r _ h

/-- The symbol is looked at before the operands. -/
theorem binary_unknown_iff (m : Machine) (l r : Datum) :
    (binary s symbol l r m).1 = .error (.unsupported (.unknownBinary symbol)) ↔
      symbol ∉ symbols := by
  constructor
  · intro h hs
    obtain ⟨op, hop⟩ := mem_symbols_iff.1 hs
    rw [binary_of_known m hop] at h
    exact applyData_ne_unknown s.width op l r h
  · intro hs
    rw [binary_eq]
    cases hop : ofSymbol? symbol with
    | none => rfl
    | some op => exact absurd (mem_symbols_iff.2 ⟨op, hop⟩) hs

theorem binary_of_refused (m : Machine) (h : Refused s.width symbol l r cause) :
    (binary s symbol (.value l) (.value r) m).1 = .error (.unsupported cause) := by
  by_cases hs : symbol ∈ symbols
  · obtain ⟨op, hop⟩ := mem_symbols_iff.1 hs
    rw [binary_of_known m hop]
    exact apply_of_refused hop h
  · -- of a symbol that does not exist nothing else is said
    cases h with
    | unknown => exact (binary_unknown_iff m _ _).2 hs
    | kinds hs' => exact absurd hs' hs
    | lengths hs' => exact absurd hs' hs
    | left hs' => exact absurd hs' hs
    | right hs' => exact absurd hs' hs

/-- Where nothing is refused, the operator is applied at each place. -/
theorem binary_of_not_refused (m : Machine) (h : ∀ cause, ¬ Refused s.width symbol l r cause) :
    ∃ v, (binary s symbol (.value l) (.value r) m).1 = .ok v ∧ v.SameShape l ∧
      ∀ (i : Nat) (x y : Int64), l.toList[i]? = some x → r.toList[i]? = some y →
        ∃ z, v.toList[i]? = some z ∧
          (binary s symbol (.value (.int x)) (.value (.int y)) m).1 = .ok (.int z) := by
  have hs : symbol ∈ symbols := by
    by_contra hs
    exact h _ (.unknown hs l r)
  obtain ⟨op, hop⟩ := mem_symbols_iff.1 hs
  rcases refused_or s.width hs l r with ⟨cause, hcause⟩ | ⟨hshape, hl, hr⟩
  · exact absurd hcause (h cause)
  obtain ⟨v, hv, hshape', hitems⟩ := apply_of_taken s.width op hshape hl hr
  refine ⟨v, (binary_of_known m hop _ _).trans hv, hshape', fun i x y hx hy => ?_⟩
  refine ⟨op.combine s.width x y, ?_, ?_⟩
  · rw [hitems, List.getElem?_zipWith, hx, hy]
  · -- the integers at a place are words if all integers of the operands are
    have hx' : s.width = .bits32 → (Value.int x).IsInt32 := by
      intro hw n hn
      rw [List.mem_singleton.1 hn]
      exact hl hw x (List.mem_of_getElem? hx)
    have hy' : s.width = .bits32 → (Value.int y).IsInt32 := by
      intro hw n hn
      rw [List.mem_singleton.1 hn]
      exact hr hw y (List.mem_of_getElem? hy)
    rw [binary_of_known m hop]
    show op.apply s.width (.int x) (.int y) = .ok (.int (op.combine s.width x y))
    rw [apply, applyWith, Width.admit_of_isInt32 hx', Width.admit_of_isInt32 hy']
    rfl

/-- What an operator gives on two integers is what it combines them to. -/
theorem toInt_of_binary {m : Machine} {x y z : Int64} {n : Int} (hop : ofSymbol? symbol = some op)
    (hn : (op.combine s.width x y).toInt = n)
    (h : (binary s symbol (.value (.int x)) (.value (.int y)) m).1 = .ok (.int z)) :
    z.toInt = n := by
  rw [binary_of_known m hop] at h
  obtain ⟨-, -, h⟩ := bind_eq_ok_iff.1 h
  obtain ⟨-, -, h⟩ := bind_eq_ok_iff.1 h
  cases h
  exact hn

/-- An operator on two values has the faults that are listed and no others; an unknown symbol is found
out before the operands are looked at, even if these are no values. Where nothing is refused, the result
has the shape of the operands, and at each place it is the result of the operator on the integers at
that place. On two integers a sum, a difference or a product is the exact one reduced to the signed
range, and a minimum or a maximum is the exact one. -/
theorem binary_itemwise (s : Settings) (symbol : String) (m : Machine) :
    (∀ l r : Datum, (binary s symbol l r m).1 = .error (.unsupported (.unknownBinary symbol)) ↔
      symbol ∉ symbols) ∧
    (∀ (l r : Value) (f : Fault), (binary s symbol (.value l) (.value r) m).1 = .error f ↔
      ∃ cause, f = .unsupported cause ∧ Refused s.width symbol l r cause) ∧
    (∀ l r : Value, (∀ cause, ¬ Refused s.width symbol l r cause) →
      ∃ v, (binary s symbol (.value l) (.value r) m).1 = .ok v ∧ v.SameShape l ∧
        ∀ (i : Nat) (x y : Int64), l.toList[i]? = some x → r.toList[i]? = some y →
          ∃ z, v.toList[i]? = some z ∧
            (binary s symbol (.value (.int x)) (.value (.int y)) m).1 = .ok (.int z)) ∧
    ∀ x y z : Int64, (binary s symbol (.value (.int x)) (.value (.int y)) m).1 = .ok (.int z) →
      (symbol = "+" → z.toInt = (x.toInt + y.toInt).bmod (2 ^ s.width.bits)) ∧
      (symbol = "-" → z.toInt = (x.toInt - y.toInt).bmod (2 ^ s.width.bits)) ∧
      (symbol = "*" → z.toInt = (x.toInt * y.toInt).bmod (2 ^ s.width.bits)) ∧
      (symbol = "min" → z.toInt = min x.toInt y.toInt) ∧
      (symbol = "max" → z.toInt = max x.toInt y.toInt) := by
  refine ⟨binary_unknown_iff m, fun l r f => ⟨fun h => ?_, ?_⟩,
    fun l r h => binary_of_not_refused m h, fun x y z h => ⟨?_, ?_, ?_, ?_, ?_⟩⟩
  · by_contra hnone
    have hnot : ∀ cause, ¬ Refused s.width symbol l r cause := by
      intro cause hcause
      have hfault := h.symm.trans (binary_of_refused m hcause)
      exact hnone ⟨cause, Except.error.inj hfault, hcause⟩
    obtain ⟨v, hv, -⟩ := binary_of_not_refused m hnot
    cases h.symm.trans hv
  · rintro ⟨cause, rfl, hcause⟩
    exact binary_of_refused m hcause
  · rintro rfl
    exact toInt_of_binary rfl (toInt_add s.width x y) h
  · rintro rfl
    exact toInt_of_binary rfl (toInt_subtract s.width x y) h
  · rintro rfl
    exact toInt_of_binary rfl (toInt_multiply s.width x y) h
  · rintro rfl
    exact toInt_of_binary rfl (toInt_minimum s.width x y) h
  · rintro rfl
    exact toInt_of_binary rfl (toInt_maximum s.width x y) h

/-- The sum of two vectors of one item changes its sign at the end of the range, and with words of 32
bits the right operand is refused if it is the one that is too large. -/
theorem binary_itemwise_extremes :
    (∃ v, (binary .default "+" (.value (.vector ⟨[Int64.maxValue], List.cons_ne_nil _ _⟩))
        (.value (.vector ⟨[1], List.cons_ne_nil _ _⟩)) .new).1 = .ok v ∧
      v.kind = .vector ∧ v.toList[0]? = some Int64.minValue) ∧
    (binary { Settings.default with width := .bits32 } "min" (.value (.int 3))
        (.value (.int 3000000000)) .new).1 =
      .error (.unsupported (.doesNotFit (.int 3000000000) 32)) := by
  constructor
  · obtain ⟨-, -, hitems, hexact⟩ := binary_itemwise .default "+" .new
    obtain ⟨v, hv, hshape, hplaces⟩ := hitems (.vector ⟨[Int64.maxValue], List.cons_ne_nil _ _⟩)
      (.vector ⟨[1], List.cons_ne_nil _ _⟩) (by
        intro cause hcause
        cases hcause with
        | unknown hs => exact hs (by decide)
        | kinds _ h => exact h rfl
        | lengths _ h => exact h rfl
        | left _ _ hw => cases hw
        | right _ _ hw => cases hw)
    obtain ⟨z, hz, hsum⟩ := hplaces 0 Int64.maxValue 1 rfl rfl
    have hword : z.toInt = Int64.minValue.toInt := (hexact _ _ _ hsum).1 rfl
    exact ⟨v, hv, hshape.1, hz.trans (congrArg some (Int64.toInt_inj.1 hword))⟩
  · obtain ⟨-, hfaults, -⟩ := binary_itemwise { Settings.default with width := .bits32 } "min" .new
    refine (hfaults (.int 3) (.int 3000000000) _).2
      ⟨_, rfl, .right (by decide) ⟨rfl, rfl⟩ rfl ?_ ?_⟩
    · intro n hn
      rw [List.mem_singleton.1 hn]
      decide
    · intro h
      exact absurd (h 3000000000 List.mem_cons_self).2 (by decide)

end Run

end VectorCalc
