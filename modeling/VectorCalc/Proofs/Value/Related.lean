import Mathlib
import VectorCalc.Proofs.Machine.Progress

/-!
# Operators on related values

Two values of one shape are compared item by item: `Value.Related R` says that they are of one shape
and that `R` relates their integers at each place.

An operator looks at the shapes of its operands and combines words. So if combining keeps words related
(`Width.Widens`), then the results of an operator on related operands are related again, although the
operator runs at another width on the left than on the right, and a scan or a fold combines many words.
Words of 64 bits take every integer, so only the operands on the left can be refused for their size.
-/

namespace VectorCalc

variable {R : Int64 → Int64 → Prop}

/-! ## Values -/

/-- Values of one shape with related integers. -/
inductive Value.Related (R : Int64 → Int64 → Prop) : Value → Value → Prop where
  | int {x y : Int64} (h : R x y) : Related R (.int x) (.int y)
  | vector {u v : Items} (h : List.Forall₂ R u.toList v.toList) :
    Related R (.vector u) (.vector v)

theorem Value.Related.refl (h : ∀ n, R n n) (v : Value) : v.Related R v := by
  cases v with
  | int n => exact .int (h n)
  | vector v => exact .vector (List.forall₂_same.2 fun n _ => h n)

/-! ## Items -/

section

variable {f g : Int64 → Int64 → Int64} {x y : Int64} {xs ys us vs : List Int64}

theorem related_zipWith (hfg : ∀ {x x' y y'}, R x x' → R y y' → R (f x y) (g x' y'))
    (h : List.Forall₂ R xs ys) (h' : List.Forall₂ R us vs) :
    List.Forall₂ R (xs.zipWith f us) (ys.zipWith g vs) := by
  induction h generalizing us vs with
  | nil => exact .nil
  | cons hx _ ih =>
    cases h' with
    | nil => exact .nil
    | cons hy h' => exact .cons (hfg hx hy) (ih h')

theorem related_scanl (hfg : ∀ {x x' y y'}, R x x' → R y y' → R (f x y) (g x' y'))
    (hxy : R x y) (h : List.Forall₂ R xs ys) :
    List.Forall₂ R (xs.scanl f x) (ys.scanl g y) := by
  induction h generalizing x y with
  | nil => exact .cons hxy .nil
  | cons hx _ ih =>
    rw [List.scanl_cons, List.scanl_cons]
    exact .cons hxy (ih (hfg hxy hx))

end

namespace Items

variable {f g : Int64 → Int64 → Int64} {u v : Items}

/-- The first items of two vectors are related, and so are the others. -/
theorem related_head_tail (h : List.Forall₂ R u.toList v.toList) :
    R (u.toList.head u.ne_nil) (v.toList.head v.ne_nil) ∧
      List.Forall₂ R u.toList.tail v.toList.tail := by
  obtain ⟨xs, hxs⟩ := u
  obtain ⟨ys, hys⟩ := v
  cases h with
  | nil => exact absurd rfl hxs
  | cons h hs => exact ⟨h, hs⟩

theorem related_scan (hfg : ∀ {x x' y y'}, R x x' → R y y' → R (f x y) (g x' y'))
    (h : List.Forall₂ R u.toList v.toList) :
    List.Forall₂ R (u.scan f).toList (v.scan g).toList := by
  obtain ⟨hhead, htail⟩ := related_head_tail h
  exact related_scanl hfg hhead htail

theorem related_fold (hfg : ∀ {x x' y y'}, R x x' → R y y' → R (f x y) (g x' y'))
    (h : List.Forall₂ R u.toList v.toList) : R (u.fold f) (v.fold g) := by
  obtain ⟨hhead, htail⟩ := related_head_tail h
  have hstep : Relator.LiftFun R (Relator.LiftFun R R) f g := fun _ _ hx _ _ hy => hfg hx hy
  exact List.rel_foldl hstep hhead htail

end Items

/-! ## Operands -/

/-- A value is refused for an integer that is no word of this width. -/
def Width.Rejects (w : Width) (f : Fault) : Prop :=
  ∃ v, f = .unsupported (.doesNotFit v w.bits) ∧ ∃ n ∈ v.toList, w.fits n.toInt = false

/-- Words of 64 bits take every value. -/
theorem Width.admit_bits64 (v : Value) : Width.bits64.admit v = .ok () :=
  if_pos (List.all_eq_true.2 fun n _ => Width.fits_toInt n)

theorem Width.follows_admit (w : Width) (v v' : Value) :
    Follows w.Rejects (fun _ _ => True) ( w.admit v) <| Width.bits64.admit v' := by
  rw [Width.admit_bits64, Width.admit]
  split_ifs with h
  · exact .ok trivial
  · refine .excused ⟨v, rfl, ?_⟩ _
    simpa only [List.all_eq_true, not_forall, Bool.not_eq_true, exists_prop] using h

/-- `R` relates words of the width `w` to words of 64 bits, and combining them by an operator of `A`
keeps them related. The sums and products of a reduction combine by addition and multiplication. -/
structure Width.Widens (w : Width) (R : Int64 → Int64 → Prop) (A : BinaryOp → Prop) : Prop where
  refl (n : Int64) : R n n
  combine {op : BinaryOp} (hop : A op) {x x' y y' : Int64} (hx : R x x') (hy : R y y') :
    R (op.combine w x y) (op.combine .bits64 x' y')
  add : A .add
  multiply : A .multiply

/-! ## Operators -/

variable {w : Width} {A : BinaryOp → Prop} {left left' right right' v v' : Value}

theorem BinaryOp.follows_apply (hw : w.Widens R A) {op : BinaryOp} (hop : A op)
    (hl : left.Related R left') (hr : right.Related R right') :
    Follows w.Rejects (Value.Related R) (op.apply w left right)
      (op.apply .bits64 left' right') := by
  cases hl with
  | int hx =>
    cases hr with
    | int hy =>
      refine (w.follows_admit _ _).bind fun _ _ _ => (w.follows_admit _ _).bind fun _ _ _ => ?_
      exact .ok (.int (hw.combine hop hx hy))
    | vector => exact .same _
  | @vector u u' hu =>
    cases hr with
    | int => exact .same _
    | @vector v v' hv =>
      -- related vectors have the same length, so a mismatch is reported with the same numbers
      have hlu : u.length = u'.length := hu.length_eq
      have hlv : v.length = v'.length := hv.length_eq
      rw [BinaryOp.apply, BinaryOp.apply, BinaryOp.applyWith, BinaryOp.applyWith, ← hlu, ← hlv]
      by_cases hlen : u.length = v.length
      · rw [if_neg (not_not.2 hlen), if_neg (not_not.2 hlen)]
        refine (w.follows_admit _ _).bind fun _ _ _ => (w.follows_admit _ _).bind fun _ _ _ => ?_
        exact .ok (.vector (related_zipWith (hw.combine hop) hu hv))
      · rw [if_pos hlen, if_pos hlen]
        exact .same _

theorem UnaryOp.related_combine (hw : w.Widens R A) (op : UnaryOp) {u v : Items}
    (h : List.Forall₂ R u.toList v.toList) : (op.combine w u).Related R (op.combine .bits64 v) := by
  cases op with
  | sum => exact .int (Items.related_fold (hw.combine hw.add) h)
  | sumScan => exact .vector (Items.related_scan (hw.combine hw.add) h)
  | product => exact .int (Items.related_fold (hw.combine hw.multiply) h)
  | productScan => exact .vector (Items.related_scan (hw.combine hw.multiply) h)

theorem UnaryOp.follows_apply (hw : w.Widens R A) (op : UnaryOp) (h : v.Related R v') :
    Follows w.Rejects (Value.Related R) (op.apply w v) (op.apply .bits64 v') := by
  cases h with
  | int h => exact .ok (.int h)
  | vector h => exact (w.follows_admit _ _).bind fun _ _ _ => .ok (op.related_combine hw h)

end VectorCalc
