import Mathlib
import VectorCalc.Fault

/-!
# Outcomes

An outcome is a result or a fault. Of two outcomes in sequence the second one may depend on the result
of the first: both have to succeed, and the first fault ends the sequence. So a sequence has no other
faults than its parts, which is what `FailsOnly` is for.

Two outcomes are compared by `Follows`, which goes through sequences as well.
-/

namespace VectorCalc

variable {α β : Type} {o : Except Fault α} {k : α → Except Fault β}

/-! ## Sequences -/

/-- A sequence of outcomes succeeds if both do. -/
theorem bind_eq_ok_iff {b : β} : (o >>= k) = .ok b ↔ ∃ a, o = .ok a ∧ k a = .ok b := by
  cases o with
  | error f =>
    constructor
    · intro h
      cases h
    · rintro ⟨_, h, _⟩
      cases h
  | ok a =>
    constructor
    · exact fun h => ⟨a, rfl, h⟩
    · rintro ⟨a', h, hk⟩
      cases h
      exact hk

/-- A sequence of outcomes fails with the first fault. -/
theorem bind_eq_error_iff {f : Fault} :
    (o >>= k) = .error f ↔ o = .error f ∨ ∃ a, o = .ok a ∧ k a = .error f := by
  cases o with
  | error g =>
    constructor
    · exact fun h => .inl (by cases h; rfl)
    · rintro (h | ⟨_, h, _⟩)
      · cases h
        rfl
      · cases h
  | ok a =>
    constructor
    · exact fun h => .inr ⟨a, rfl, h⟩
    · rintro (h | ⟨a', h, hk⟩)
      · cases h
      · cases h
        exact hk

/-! ## Faults of an outcome -/

/-- If the outcome is a fault, `P` holds of it. -/
def FailsOnly (P : Fault → Prop) (o : Except Fault α) : Prop := ∀ f, o = .error f → P f

variable {P Q : Fault → Prop}

theorem failsOnly_ok (a : α) : FailsOnly P (.ok a : Except Fault α) := fun _ h => nomatch h

theorem failsOnly_error {f : Fault} (h : P f) : FailsOnly P (.error f : Except Fault α) := by
  intro f' hf'
  cases hf'
  exact h

theorem FailsOnly.mono (h : FailsOnly P o) (hPQ : ∀ f, P f → Q f) : FailsOnly Q o :=
  fun f hf => hPQ f (h f hf)

theorem FailsOnly.bind (h : FailsOnly P o) (hk : ∀ a, o = .ok a → FailsOnly P (k a)) :
    FailsOnly P (o >>= k) := by
  intro f hf
  rcases bind_eq_error_iff.1 hf with ho | ⟨a, ho, hka⟩
  · exact h f ho
  · exact hk a ho f hka

/-! ## Two outcomes -/

/-- The first outcome follows the second: the results are related by `V`, or the faults are the same,
or the first one is a fault that is excused. -/
inductive Follows {α β : Type} (Excused : Fault → Prop) (V : α → β → Prop) :
    Except Fault α → Except Fault β → Prop where
  | ok {a : α} {b : β} (h : V a b) : Follows Excused V (.ok a) (.ok b)
  | same (f : Fault) : Follows Excused V (.error f) (.error f)
  | excused {f : Fault} (h : Excused f) (o : Except Fault β) : Follows Excused V (.error f) o

variable {γ δ : Type} {V : α → β → Prop} {W : γ → δ → Prop}

theorem Follows.bind {o : Except Fault α} {o' : Except Fault β} {k : α → Except Fault γ}
    {k' : β → Except Fault δ} (h : Follows P V o o')
    (hk : ∀ a b, V a b → Follows P W (k a) (k' b)) : Follows P W (o >>= k) (o' >>= k') := by
  cases h with
  | ok h => exact hk _ _ h
  | same f => exact .same f
  | excused h => exact .excused h _

theorem Follows.of_ok {o : Except Fault α} {o' : Except Fault β} {a : α} (h : Follows P V o o')
    (ho : o = .ok a) : ∃ b, o' = .ok b ∧ V a b := by
  cases h with
  | ok h =>
    cases ho
    exact ⟨_, rfl, h⟩
  | same f => cases ho
  | excused => cases ho

theorem Follows.of_error {o : Except Fault α} {o' : Except Fault β} {f : Fault}
    (h : Follows P V o o') (ho : o = .error f) : o' = .error f ∨ P f := by
  cases h with
  | ok => cases ho
  | same f => exact .inl (by cases ho; rfl)
  | excused h => exact .inr (by cases ho; exact h)

end VectorCalc
