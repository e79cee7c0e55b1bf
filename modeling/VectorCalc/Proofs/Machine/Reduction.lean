import VectorCalc.Proofs.Machine.Itemwise

/-!
# Reductions and scans

A reduction combines the integers of a vector by wrapped additions or multiplications, one after the
other. Each of these loses all but the low bits, yet the result is the exact sum or product with its low
bits kept once, and it is the same in whatever order and bracketing the integers are combined.

A `Bracketing` is such an order. The main induction goes over it (`Bracketing.toInt_result`): what two
parts are combined to depends on the totals of the parts up to a multiple of the modulus only. A
reduction is the bracketing from the left, and the integer of a scan at a place is the reduction of the
integers up to this place.
-/

namespace VectorCalc

/-! ## Orders of combining -/

/-- A way to combine integers: an integer alone, or what two parts are combined to. -/
inductive Bracketing where
  | item (n : Int64)
  | pair (left right : Bracketing)

namespace Bracketing

/-- The integers that are combined, from the left to the right. -/
def items : Bracketing → List Int64
  | .item n => [n]
  | .pair left right => left.items ++ right.items

/-- What they are combined to. -/
def result (f : Int64 → Int64 → Int64) : Bracketing → Int64
  | .item n => n
  | .pair left right => f (left.result f) (right.result f)

/-- Further integers combined from the left, one after the other. -/
def followedBy (t : Bracketing) (ns : List Int64) : Bracketing :=
  ns.foldl (fun t n => .pair t (.item n)) t

theorem items_followedBy (t : Bracketing) (ns : List Int64) :
    (t.followedBy ns).items = t.items ++ ns := by
  induction ns generalizing t with
  | nil => exact (List.append_nil _).symm
  | cons n ns ih =>
    show ((pair t (item n)).followedBy ns).items = t.items ++ n :: ns
    rw [ih, items, items, List.append_assoc, List.singleton_append]

theorem result_followedBy (f : Int64 → Int64 → Int64) (t : Bracketing) (ns : List Int64) :
    (t.followedBy ns).result f = ns.foldl f (t.result f) := by
  induction ns generalizing t with
  | nil => rfl
  | cons n ns ih =>
    show ((pair t (item n)).followedBy ns).result f = ns.foldl f (f (t.result f) n)
    rw [ih, result, result]

end Bracketing

/-! ## Totals -/

/-- Words are combined to the total of the numbers that they stand for, reduced to the signed range. The
total does not depend on the order of the numbers, and a unit adds nothing to it. -/
structure BinaryOp.Totals (w : Width) (op : BinaryOp) (total : List Int → Int) (unit : Int64) :
    Prop where
  item (n : Int) : total [n] = n
  pair {xs ys : List Int} {x y : Int64} (hx : x.toInt = (total xs).bmod (2 ^ w.bits))
    (hy : y.toInt = (total ys).bmod (2 ^ w.bits)) :
    (op.combine w x y).toInt = (total (xs ++ ys)).bmod (2 ^ w.bits)
  perm {xs ys : List Int} (h : xs.Perm ys) : total xs = total ys
  units (xs : List Int) (k : Nat) : total (xs ++ List.replicate k unit.toInt) = total xs
  fits_unit : w.fits unit.toInt = true

theorem BinaryOp.totals_add (w : Width) : add.Totals w List.sum 0 where
  item n := List.sum_singleton
  pair {xs ys x y} hx hy := by
    rw [toInt_add, hx, hy, List.sum_append, Int.bmod_add_bmod, Int.add_bmod_bmod]
  perm h := h.sum_eq
  units xs k := by
    rw [List.sum_append, List.sum_replicate]
    simp
  fits_unit := by cases w <;> decide

theorem BinaryOp.totals_multiply (w : Width) : multiply.Totals w List.prod 1 where
  item n := List.prod_singleton
  pair {xs ys x y} hx hy := by
    rw [toInt_multiply, hx, hy, List.prod_append, Int.bmod_mul_bmod, Int.mul_bmod_bmod]
  perm h := h.prod_eq
  units xs k := by
    rw [List.prod_append, List.prod_replicate]
    simp
  fits_unit := by cases w <;> decide

section

variable {w : Width} {op : BinaryOp} {total : List Int → Int} {unit : Int64} {v : Items}

/-- However words are combined, the result is their exact total, reduced once. -/
theorem Bracketing.toInt_result (h : op.Totals w total unit) {t : Bracketing}
    (ht : ∀ n ∈ t.items, w.fits n.toInt = true) :
    (t.result (op.combine w)).toInt =
      (total (t.items.map Int64.toInt)).bmod (2 ^ w.bits) := by
  induction t with
  | item n =>
    have hn : w.fits n.toInt = true := ht n List.mem_cons_self
    show n.toInt = (total [n.toInt]).bmod (2 ^ w.bits)
    rw [h.item, Width.bmod_of_fits hn]
  | pair left right ihl ihr =>
    have hl := ihl fun n hn => ht n (List.mem_append_left _ hn)
    have hr := ihr fun n hn => ht n (List.mem_append_right _ hn)
    rw [result, items, List.map_append]
    exact h.pair hl hr

namespace Items

/-- The bracketing from the left. -/
def bracketing (v : Items) : Bracketing :=
  (Bracketing.item (v.toList.head v.ne_nil)).followedBy v.toList.tail

theorem items_bracketing (v : Items) : v.bracketing.items = v.toList := by
  rw [bracketing, Bracketing.items_followedBy]
  exact List.cons_head_tail v.ne_nil

theorem result_bracketing (f : Int64 → Int64 → Int64) (v : Items) :
    v.bracketing.result f = v.fold f :=
  Bracketing.result_followedBy f _ _

/-- A fold gives the exact total of a vector of words, reduced once. -/
theorem toInt_fold (h : op.Totals w total unit) (hv : ∀ n ∈ v.toList, w.fits n.toInt = true) :
    (v.fold (op.combine w)).toInt =
      (total (v.toList.map Int64.toInt)).bmod (2 ^ w.bits) := by
  have hresult := Bracketing.toInt_result h (t := v.bracketing) (v.items_bracketing ▸ hv)
  rw [items_bracketing, result_bracketing] at hresult
  exact hresult

/-- Whatever the order, and however often a unit is combined with the integers, the result is that of
the fold. -/
theorem result_eq_fold (h : op.Totals w total unit) (hv : ∀ n ∈ v.toList, w.fits n.toInt = true)
    {t : Bracketing} {k : Nat} (ht : t.items.Perm (v.toList ++ List.replicate k unit)) :
    t.result (op.combine w) = v.fold (op.combine w) := by
  have hfits : ∀ n ∈ t.items, w.fits n.toInt = true := by
    intro n hn
    rcases List.mem_append.1 (ht.subset hn) with hn | hn
    · exact hv n hn
    · rw [List.eq_of_mem_replicate hn]
      exact h.fits_unit
  have htotal : total (t.items.map Int64.toInt) = total (v.toList.map Int64.toInt) := by
    rw [h.perm (ht.map Int64.toInt), List.map_append, List.map_replicate, h.units]
  rw [← Int64.toInt_inj, Bracketing.toInt_result h hfits, toInt_fold h hv, htotal]

/-- The items up to and including the one at a place. -/
def upTo (v : Items) (i : Nat) : Items :=
  ⟨v.toList.take (i + 1), by simpa using v.ne_nil⟩

/-- The item of a scan at a place is the fold of the items up to this place. -/
theorem getElem?_scan (f : Int64 → Int64 → Int64) (v : Items) {i : Nat} (hi : i < v.length) :
    (v.scan f).toList[i]? = some ((v.upTo i).fold f) := by
  obtain ⟨ns, hns⟩ := v
  cases ns with
  | nil => exact absurd rfl hns
  | cons n ns =>
    have hle : i ≤ ns.length := Nat.le_of_lt_succ hi
    show (ns.scanl f n)[i]? = some ((ns.take i).foldl f n)
    rw [List.getElem?_scanl, if_pos hle]

/-- The last item of a scan is the whole fold. -/
theorem getLast_scan (f : Int64 → Int64 → Int64) (v : Items) :
    (v.scan f).toList.getLast (v.scan f).ne_nil = v.fold f :=
  List.getLast_scanl _

theorem isInt32_upTo (h : (Value.vector v).IsInt32) (i : Nat) : (Value.vector (v.upTo i)).IsInt32 :=
  fun n hn => h n (List.mem_of_mem_take hn)

end Items

end

/-! ## Reductions and scans by their symbols -/

namespace Run

variable {s : Settings} {m : Machine} {symbol : String}

theorem unary_of_known (m : Machine) {op : UnaryOp} (hop : UnaryOp.ofSymbol? symbol = some op)
    (d : Datum) : (unary s symbol d m).1 = op.applyDatum s.width (op.combine s.width) d := by
  rw [unary_eq, hop]
  rfl

/-- An operator that exists takes a vector of words. -/
theorem unary_vector {op : UnaryOp} (hop : UnaryOp.ofSymbol? symbol = some op) {v : Items}
    (hv : s.width = .bits32 → (Value.vector v).IsInt32) :
    (unary s symbol (.value (.vector v)) m).1 = .ok (op.combine s.width v) := by
  rw [unary_of_known m hop]
  show op.apply s.width (.vector v) = .ok (op.combine s.width v)
  rw [UnaryOp.apply, UnaryOp.applyWith, Width.admit_of_isInt32 hv]
  rfl

/-- A reduction and a scan that go together.

`reduces`: the reduction of a vector of words is the exact total of its integers, reduced once to the
signed range, and every other way to combine the integers gives the same, also where units are added.

`scans`: the scan of a vector of words has its length, at each place it is the reduction of the
integers up to this place, and at the end it is the reduction of the vector.

`integers`: both leave an integer as it is, also one that is too large for the words. -/
structure Aggregates (s : Settings) (m : Machine) (reduce scan : String) (op : BinaryOp)
    (total : List Int → Int) (unit : Int64) : Prop where
  reduces (v : Items) (hv : s.width = .bits32 → (Value.vector v).IsInt32) :
    ∃ n : Int64, (unary s reduce (.value (.vector v)) m).1 = .ok (.int n) ∧
      n.toInt = (total (v.toList.map Int64.toInt)).bmod (2 ^ s.width.bits) ∧
      ∀ (t : Bracketing) (k : Nat), t.items.Perm (v.toList ++ List.replicate k unit) →
        t.result (op.combine s.width) = n
  scans (v : Items) (hv : s.width = .bits32 → (Value.vector v).IsInt32) :
    ∃ u : Items, (unary s scan (.value (.vector v)) m).1 = .ok (.vector u) ∧
      u.length = v.length ∧
      (∀ i < v.length, ∃ n, u.toList[i]? = some n ∧
        (unary s reduce (.value (.vector (v.upTo i))) m).1 = .ok (.int n)) ∧
      (unary s reduce (.value (.vector v)) m).1 = .ok (.int (u.toList.getLast u.ne_nil))
  integers (n : Int64) :
    (unary s reduce (.value (.int n)) m).1 = .ok (.int n) ∧
      (unary s scan (.value (.int n)) m).1 = .ok (.int n)

/-- A fold and a scan by an operator that has totals go together. -/
theorem aggregates_of_totals {reduce scan : String} {folding scanning : UnaryOp} {op : BinaryOp}
    {total : List Int → Int} {unit : Int64} (h : op.Totals s.width total unit)
    (hreduce : UnaryOp.ofSymbol? reduce = some folding)
    (hscan : UnaryOp.ofSymbol? scan = some scanning)
    (hfold : ∀ v, folding.combine s.width v = .int (v.fold (op.combine s.width)))
    (hscanning : ∀ v, scanning.combine s.width v = .vector (v.scan (op.combine s.width))) :
    Aggregates s m reduce scan op total unit := by
  have hreduced : ∀ v : Items, (s.width = .bits32 → (Value.vector v).IsInt32) →
      (unary s reduce (.value (.vector v)) m).1 = .ok (.int (v.fold (op.combine s.width))) := by
    intro v hv
    rw [unary_vector hreduce hv, hfold]
  constructor
  case reduces =>
    intro v hv
    have hfits := Width.fits_of_isInt32 hv
    exact ⟨_, hreduced v hv, Items.toInt_fold h hfits, fun t k ht => Items.result_eq_fold h hfits ht⟩
  case scans =>
    intro v hv
    refine ⟨_, (unary_vector hscan hv).trans (congrArg _ (hscanning v)), Items.length_scan _ v, ?_, ?_⟩
    · intro i hi
      exact ⟨_, Items.getElem?_scan _ v hi, hreduced _ fun hw => Items.isInt32_upTo (hv hw) i⟩
    · rw [Items.getLast_scan]
      exact hreduced v hv
  case integers =>
    intro n
    exact ⟨unary_of_known m hreduce _, unary_of_known m hscan _⟩

/-- Sums and products of vectors are exact but for one reduction to the signed range, whatever the
order in which they are formed, and their scans list those of the beginnings of the vectors. -/
theorem unary_exact (s : Settings) (m : Machine) :
    Aggregates s m "+/" "+\\" .add List.sum 0 ∧
      Aggregates s m "*/" "*\\" .multiply List.prod 1 :=
  ⟨aggregates_of_totals (BinaryOp.totals_add s.width) rfl rfl (fun _ => rfl) fun _ => rfl,
    aggregates_of_totals (BinaryOp.totals_multiply s.width) rfl rfl (fun _ => rfl) fun _ => rfl⟩

/-- A sum overflows twice and comes out at zero. With words of 32 bits a product of two words vanishes,
and an integer that is no word stays as it is. -/
theorem unary_exact_overflow :
    (unary .default "+/" (.value (.vector ⟨[Int64.maxValue, Int64.maxValue, 2], by decide⟩)) .new).1 =
        .ok (.int 0) ∧
      (unary { Settings.default with width := .bits32 } "*/"
        (.value (.vector ⟨[65536, 65536], by decide⟩)) .new).1 = .ok (.int 0) ∧
      (unary { Settings.default with width := .bits32 } "*\\" (.value (.int 3000000000)) .new).1 =
        .ok (.int 3000000000) := by
  obtain ⟨hsums, -⟩ := unary_exact .default .new
  obtain ⟨-, hproducts⟩ := unary_exact { Settings.default with width := .bits32 } .new
  refine ⟨?_, ?_, (hproducts.integers 3000000000).2⟩
  · obtain ⟨n, hn, hsum, -⟩ := hsums.reduces ⟨[Int64.maxValue, Int64.maxValue, 2], by decide⟩
      (fun hw => nomatch hw)
    have hzero : n.toInt = (0 : Int64).toInt := hsum
    rw [hn, Int64.toInt_inj.1 hzero]
  · have hword : -2 ^ 31 ≤ (65536 : Int64).toInt ∧ (65536 : Int64).toInt < 2 ^ 31 := by decide
    have hwords : (Value.vector ⟨[65536, 65536], by decide⟩).IsInt32 :=
      List.forall_mem_cons.2 ⟨hword, List.forall_mem_singleton.2 hword⟩
    obtain ⟨n, hn, hproduct, -⟩ := hproducts.reduces ⟨[65536, 65536], by decide⟩ fun _ => hwords
    have hzero : n.toInt = (0 : Int64).toInt := hproduct
    rw [hn, Int64.toInt_inj.1 hzero]

end Run

end VectorCalc
