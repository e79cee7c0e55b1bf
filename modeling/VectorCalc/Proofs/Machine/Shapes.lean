import VectorCalc.Proofs.Machine.Coupled

/-!
# Shapes

With words of 64 bits the integers of a table have no influence on what can be seen of a session but
on the integers of its results: lines fail in the same way whatever they are, and give values of the
same shape. For the operators refuse operands for their shapes only, and what an operator gives has a
shape that follows from those of its operands.
-/

namespace VectorCalc

/-! ## Values and tables of the same shape -/

/-- Two integers, or two vectors of the same length. -/
def Value.SameShape (v v' : Value) : Prop :=
  v.kind = v'.kind ∧ v.toList.length = v'.toList.length

/-- The same names in the same order, with values of the same shape. -/
def Bindings.SameShape (b b' : Bindings) : Prop :=
  List.Forall₂ (fun e e' => e.1 = e'.1 ∧ e.2.SameShape e'.2) b.entries b'.entries

/-- Values of the same shape are those that are related whatever their integers are. -/
theorem Value.related_iff_sameShape {v v' : Value} :
    v.Related (fun _ _ => True) v' ↔ v.SameShape v' := by
  constructor
  · intro h
    cases h with
    | int => exact ⟨rfl, rfl⟩
    | vector h => exact ⟨rfl, h.length_eq⟩
  · rintro ⟨hkind, hlength⟩
    cases v with
    | int x =>
      cases v' with
      | int y => exact .int trivial
      | vector v => cases hkind
    | vector u =>
      cases v' with
      | int y => cases hkind
      | vector v => exact .vector (List.forall₂_iff_zip.2 ⟨hlength, fun _ => trivial⟩)

theorem Bindings.related_iff_sameShape {b b' : Bindings} :
    b.Related (fun _ _ => True) b' ↔ b.SameShape b' := by
  have hentry : RelatedEntry (fun _ _ => True) = fun e e' => e.1 = e'.1 ∧ e.2.SameShape e'.2 := by
    funext e e'
    rw [RelatedEntry, Value.related_iff_sameShape]
  rw [Bindings.Related, Bindings.SameShape, hentry]

/-! ## Lines -/

/-- Two lines end alike: with values of the same shape or with the same fault, and with tables of the
same shape. -/
def Machine.EndAlike (step step' : Except Fault Value × Machine) : Prop :=
  ((∃ v v', step.1 = .ok v ∧ step'.1 = .ok v' ∧ v.SameShape v') ∨
    ∃ f, step.1 = .error f ∧ step'.1 = .error f) ∧
  step.2.bindings.SameShape step'.2.bindings

/-- Whatever integers they combine, operators of 64 bits combine integers to integers. -/
theorem Width.widens_bits64 :
    Width.bits64.Widens (fun _ _ => True) (fun _ => True) where
  refl _ := trivial
  combine _ _ _ _ _ _ _ := trivial
  add := trivial
  multiply := trivial

theorem Width.not_rejects_bits64 (f : Fault) : ¬ Width.bits64.Rejects f := by
  rintro ⟨v, -, n, -, hfits⟩
  rw [Width.fits_toInt] at hfits
  cases hfits

variable {s : Settings} {m m' : Machine}

theorem Machine.evaluateLine_alike (hs : s.width = .bits64) (source : String)
    (hm : m.bindings.SameShape m'.bindings) :
    EndAlike (m.evaluateLine s source) (m'.evaluateLine s source) := by
  have hwidens : s.width.Widens (fun _ _ => True) (fun _ => True) := by
    rw [hs]
    exact Width.widens_bits64
  have hend := Machine.inStep_evaluateLine hwidens hs rfl source
    (fun _ e _ => Expr.usesOnly_true e) (Bindings.related_iff_sameShape.2 hm)
  generalize m.evaluateLine s source = step at hend ⊢
  generalize m'.evaluateLine s source = step' at hend ⊢
  cases hend with
  | ok hv hm =>
    exact ⟨.inl ⟨_, _, rfl, rfl, Value.related_iff_sameShape.1 hv⟩,
      Bindings.related_iff_sameShape.1 hm⟩
  | same f hm => exact ⟨.inr ⟨f, rfl, rfl⟩, Bindings.related_iff_sameShape.1 hm⟩
  | excused h =>
    -- words of 64 bits take every operand
    rw [hs] at h
    exact absurd h (Width.not_rejects_bits64 _)

/-- Sessions on tables of the same shape go alike: at each line both give values of the same shape or
fail with the same fault, and the tables are of the same shape again. -/
theorem Machine.session_alike (hs : s.width = .bits64) (lines : List String)
    (hm : m.bindings.SameShape m'.bindings) :
    List.Forall₂ EndAlike (m.session s lines) (m'.session s lines) := by
  induction lines generalizing m m' with
  | nil => exact .nil
  | cons line lines ih =>
    have hstep := Machine.evaluateLine_alike hs line hm
    exact .cons hstep (ih hstep.2)

/-- Two tables that bind one name to vectors of two items. -/
theorem Machine.session_alike_pairs :
    List.Forall₂ EndAlike
      ((ofBindings (Bindings.empty.insert "x" (by decide) (.vector ⟨[1, 2], by decide⟩))).session
        .default ["y = x", "*/ x ** y", "y + 1"])
      ((ofBindings (Bindings.empty.insert "x" (by decide) (.vector ⟨[-7, 0], by decide⟩))).session
        .default ["y = x", "*/ x ** y", "y + 1"]) :=
  session_alike rfl _ (.cons ⟨rfl, rfl, rfl⟩ .nil)

end VectorCalc
