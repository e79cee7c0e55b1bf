import Mathlib
import VectorCalc.Machine.Evaluate

/-!
# An operator is applied with its own kernel

Kernels are kept from one application of an operator to the next, and by one interpreter for all
others. Whatever is kept, an operator is applied with its own kernel (`kernel_run`), so an application
gives what the operator gives of itself, and all that it does to the machine is to prepare the operator
(`binary_eq`, `unary_eq`).
-/

namespace VectorCalc

namespace Kernels

variable {k : Kernels} {op other : Operator}

theorem not_mem_empty : op ∉ empty := List.not_mem_nil

theorem mem_add : other ∈ k.add op ↔ other = op ∨ other ∈ k := List.mem_cons

/-- What is found among kernels that are their operators' own is the operator's own. -/
theorem findIn_eq {es : List ((op : Operator) × op.Kernel)} (h : ∀ e ∈ es, e.2 = e.1.kernel) :
    findIn op es = if op ∈ es.map Sigma.fst then some op.kernel else none := by
  induction es with
  | nil => rfl
  | cons e es ih =>
    obtain ⟨key, f⟩ := e
    have hown : f = key.kernel := h _ List.mem_cons_self
    have hrest := ih fun e he => h e (List.mem_cons_of_mem _ he)
    rw [findIn, List.map_cons]
    by_cases hkey : key = op
    · subst hkey
      rw [dif_pos rfl, if_pos List.mem_cons_self, hown]
    · have hmem : op ∈ key :: es.map Sigma.fst ↔ op ∈ es.map Sigma.fst := by
        rw [List.mem_cons, or_iff_right (Ne.symm hkey)]
      rw [dif_neg hkey, hrest]
      simp only [hmem]

theorem find?_eq (k : Kernels) (op : Operator) :
    k.find? op = if op ∈ k then some op.kernel else none := findIn_eq k.own

end Kernels

/-- The machine on which an operator has been prepared, unless that was done before or is switched
off. -/
def Machine.prepare (s : Settings) (op : Operator) (m : Machine) : Machine :=
  if s.prepares ∧ op ∉ m.prepared then m.keepKernel op else m

namespace Run

/-- Whatever kernels have been kept, an operator gets its own one, and is prepared. -/
theorem kernel_run (s : Settings) (op : Operator) (m : Machine) :
    kernel s op m = (.ok op.kernel, m.prepare s op) := by
  unfold kernel Machine.prepare
  by_cases hs : s.prepares = true
  · rw [if_pos hs]
    have hget (f : Machine → Run op.Kernel) : (get >>= f) m = f m m := rfl
    rw [hget, Kernels.find?_eq]
    by_cases hop : op ∈ m.prepared
    · rw [if_pos hop, if_neg fun h => h.2 hop]
      rfl
    · rw [if_neg hop, if_pos ⟨hs, hop⟩]
      rfl
  · rw [if_neg hs, if_neg fun h => hs h.1]
    rfl

theorem kernel_eq (s : Settings) (op : Operator) :
    kernel s op = (do
      update (.prepare s op)
      return op.kernel) := funext fun m => kernel_run s op m

theorem binary_eq (s : Settings) (symbol : String) (left right : Datum) :
    binary s symbol left right =
      match BinaryOp.ofSymbol? symbol with
      | none => throw (.unsupported (.unknownBinary symbol))
      | some op => (do
        update (.prepare s (.binary op))
        lift (op.applyData s.width (op.combine s.width) left right)) := by
  rw [binary]
  cases BinaryOp.ofSymbol? symbol with
  | none => rfl
  | some op =>
    dsimp only
    rw [kernel_eq]
    rfl

theorem unary_eq (s : Settings) (symbol : String) (operand : Datum) :
    unary s symbol operand =
      match UnaryOp.ofSymbol? symbol with
      | none => throw (.unsupported (.unknownUnary symbol))
      | some op => (do
        update (.prepare s (.unary op))
        lift (op.applyDatum s.width (op.combine s.width) operand)) := by
  rw [unary]
  cases UnaryOp.ofSymbol? symbol with
  | none => rfl
  | some op =>
    dsimp only
    rw [kernel_eq]
    rfl

end Run

end VectorCalc
