import VectorCalc.Proofs.Machine.Coupled

/-!
# What a machine remembers

From line to line a machine carries its bindings, the operators it has prepared, and the log. Only the
bindings make a difference: what a line gives and what it binds is the same on machines with the same
bindings (`Machine.evaluateLine_congr`), since whatever kernels have been kept, each is its operator's
own (`Run.kernel_run`). It does not depend on whether operators are prepared either.

Machines with the same bindings are machines in step, with equality as the relation between integers
and without an excuse.
-/

namespace VectorCalc

/-! ## Equal integers -/

theorem Value.eq_of_related {v v' : Value} (h : v.Related Eq v') : v = v' := by
  cases h with
  | int h => rw [h]
  | @vector u u' h =>
    rw [List.forall₂_eq_eq_eq] at h
    obtain ⟨items, hitems⟩ := u
    obtain ⟨items', hitems'⟩ := u'
    cases h
    rfl

theorem Bindings.eq_of_related {b b' : Bindings} (h : b.Related Eq b') : b = b' := by
  have hentries : b.entries = b'.entries := by
    unfold Related at h
    generalize b.entries = es at h
    generalize b'.entries = es' at h
    induction h with
    | nil => rfl
    | cons he _ ih => rw [Prod.ext he.1 (Value.eq_of_related he.2), ih]
  obtain ⟨es, hdistinct, hnamed⟩ := b
  obtain ⟨es', hdistinct', hnamed'⟩ := b'
  cases hentries
  rfl

/-- Equal outcomes follow each other. -/
theorem follows_value (E : Fault → Prop) (o : Except Fault Value) :
    Follows E (Value.Related Eq) o o := by
  cases o with
  | error f => exact .same f
  | ok v => exact .ok (.refl (fun _ => rfl) v)

variable {s s' : Settings} {m m' : Machine}

/-- Settings with the same width and capacity go along without an excuse. -/
theorem Settings.tracks_eq (hwidth : s'.width = s.width) (hcapacity : s'.capacity = s.capacity) :
    s.Tracks s' Eq (fun _ => False) fun _ => True where
  refl _ := rfl
  unary op v v' h := by
    rw [Value.eq_of_related h, hwidth]
    exact follows_value _ _
  binary _ l l' r r' hl hr := by
    rw [Value.eq_of_related hl, Value.eq_of_related hr, hwidth]
    exact follows_value _ _
  capacity := hcapacity

/-! ## Lines -/

/-- A line has the same outcome and leaves the same bindings on machines with the same bindings. -/
theorem Machine.evaluateLine_congr (hwidth : s'.width = s.width)
    (hcapacity : s'.capacity = s.capacity) (source : String) (hm : m.bindings = m'.bindings) :
    (m.evaluateLine s source).1 = (m'.evaluateLine s' source).1 ∧
      (m.evaluateLine s source).2.bindings = (m'.evaluateLine s' source).2.bindings := by
  have hrelated : m.bindings.Related Eq m'.bindings := by
    rw [hm]
    exact .refl (fun _ => rfl) _
  have hstep : Run.InStep Eq (fun _ => False) (Value.Related Eq) (m.evaluateLine s source)
      (m'.evaluateLine s' source) :=
    Run.coupled_line (Settings.tracks_eq hwidth hcapacity) (fun _ e _ => e.usesOnly_true) m m'
      hrelated
  generalize m.evaluateLine s source = step at hstep
  generalize m'.evaluateLine s' source = step' at hstep
  cases hstep with
  | ok hv hm => exact ⟨congrArg Except.ok (Value.eq_of_related hv), Bindings.eq_of_related hm⟩
  | same f hm => exact ⟨rfl, Bindings.eq_of_related hm⟩
  | excused h => exact h.elim

end VectorCalc
