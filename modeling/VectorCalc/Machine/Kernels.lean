import VectorCalc.Arithmetic

/-!
# Prepared operators

An operator is prepared when it is first applied: its kernel is kept under it, and is found again the
next time. Only the kernel of the operator itself is ever kept under it, so what is found does what
the operator does.
-/

namespace VectorCalc

/-- The operators that have been prepared, the last one first, with the kernels kept for them. -/
structure Kernels where
  entries : List ((op : Operator) × op.Kernel)
  own : ∀ e ∈ entries, e.2 = e.1.kernel

namespace Kernels

/-- No operator has been prepared. -/
def empty : Kernels := ⟨[], nofun⟩

/-- The prepared operators, the last one first. -/
def operators (k : Kernels) : List Operator := k.entries.map Sigma.fst

instance : Membership Operator Kernels := ⟨fun k op => op ∈ k.operators⟩

instance (op : Operator) (k : Kernels) : Decidable (op ∈ k) :=
  inferInstanceAs (Decidable (op ∈ k.operators))

/-- The kernel among the given ones that is kept under an operator. -/
def findIn (op : Operator) : List ((op : Operator) × op.Kernel) → Option op.Kernel
  | [] => none
  | ⟨other, f⟩ :: es => if h : other = op then some (h ▸ f) else findIn op es

/-- The kernel that is kept under an operator. -/
def find? (k : Kernels) (op : Operator) : Option op.Kernel := findIn op k.entries

/-- Keep the kernel of an operator. -/
def add (k : Kernels) (op : Operator) : Kernels where
  entries := ⟨op, op.kernel⟩ :: k.entries
  own e he := by
    rcases List.mem_cons.1 he with rfl | he
    · rfl
    · exact k.own e he

/-- Kernels are those of their operators, and nothing else is kept. -/
theorem entries_eq (k : Kernels) : k.entries = k.operators.map fun op => ⟨op, op.kernel⟩ := by
  have hown : ∀ e ∈ k.entries, (⟨e.1, e.1.kernel⟩ : (op : Operator) × op.Kernel) = e :=
    fun e he => Sigma.ext rfl (heq_of_eq (k.own e he).symm)
  rw [operators, List.map_map]
  exact ((List.map_congr_left hown).trans (List.map_id _)).symm

theorem ext_operators {k k' : Kernels} (h : k.operators = k'.operators) : k = k' := by
  have hentries : k.entries = k'.entries := by
    rw [entries_eq k, entries_eq k', h]
  cases k
  cases k'
  cases hentries
  rfl

instance : DecidableEq Kernels := fun k k' =>
  decidable_of_iff (k.operators = k'.operators) ⟨ext_operators, congrArg operators⟩

end Kernels

end VectorCalc
