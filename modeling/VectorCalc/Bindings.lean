import VectorCalc.Value.Offered

/-!
# Bindings

A table of names and their values that remembers the order in which the names arrived. Names are
distinct and not empty. Binding a name again keeps its place; a name that was removed and is bound
again goes to the end.
-/

namespace VectorCalc

/-- The bound names with their values, the oldest first. -/
structure Bindings where
  entries : List (String × Value)
  distinct : (entries.map Prod.fst).Nodup
  named : "" ∉ entries.map Prod.fst
deriving DecidableEq

namespace Bindings

/-! ## Looking up -/

/-- No names at all. -/
def empty : Bindings := ⟨[], List.nodup_nil, List.not_mem_nil⟩

instance : Inhabited Bindings := ⟨empty⟩

/-- The bound names, the oldest first. -/
def names (b : Bindings) : List String := b.entries.map Prod.fst

/-- How many names are bound. -/
def size (b : Bindings) : Nat := b.entries.length

/-- The value of a name. -/
def get? (b : Bindings) (name : String) : Option Value := b.entries.lookup name

/-- The name is bound. -/
def contains (b : Bindings) (name : String) : Bool := b.names.contains name

/-- The same names have the same values, in whatever order. -/
def agree (a b : Bindings) : Bool :=
  a.size = b.size && a.entries.all fun e => b.get? e.1 = some e.2

/-- The table as a host sees it. -/
def inspect (b : Bindings) : String :=
  "Environment(\x7b" ++
    ", ".intercalate (b.entries.map fun e => Text.quoted e.1 ++ ": " ++ e.2.inspect) ++ "\x7d)"

/-! ## Changing the table -/

/-- The entries with `name` bound to `v`, in its place if it has one and else at the end. -/
def put {α β : Type} [DecidableEq α] (name : α) (v : β) : List (α × β) → List (α × β)
  | [] => [(name, v)]
  | e :: es => if e.1 = name then (name, v) :: es else e :: put name v es

section

variable {α β : Type} [DecidableEq α] {name : α} {v : β} {es : List (α × β)}

/-- Putting a name adds no other one. -/
theorem mem_names_put {other : α} :
    other ∈ (put name v es).map Prod.fst ↔ other = name ∨ other ∈ es.map Prod.fst := by
  induction es with
  | nil => simp [put]
  | cons e es ih =>
    unfold put
    split
    · next h => simp [h]
    · simp only [List.map_cons, List.mem_cons, ih]
      exact or_left_comm

/-- Putting a name keeps the names distinct. -/
theorem nodup_names_put (h : (es.map Prod.fst).Nodup) :
    ((put name v es).map Prod.fst).Nodup := by
  induction es with
  | nil => simp [put]
  | cons e es ih =>
    obtain ⟨hn, hd⟩ := List.nodup_cons.1 h
    unfold put
    split
    · next he => exact List.nodup_cons.2 ⟨he ▸ hn, hd⟩
    · next he =>
      refine List.nodup_cons.2 ⟨fun hm => ?_, ih hd⟩
      rcases mem_names_put.1 hm with h' | h'
      · exact he h'
      · exact hn h'

/-- The name that was put has its value, and all others keep theirs. -/
theorem lookup_put (other : α) :
    (put name v es).lookup other = if other = name then some v else es.lookup other := by
  induction es with
  | nil => by_cases h : other = name <;> simp [put, List.lookup_cons, beq_eq_false_iff_ne.2, h]
  | cons e es ih =>
    obtain ⟨key, old⟩ := e
    unfold put
    by_cases he : key = name <;> by_cases h : other = key <;>
      simp_all [List.lookup_cons, beq_eq_false_iff_ne.2]

end

/-- Bind a name. -/
def insert (b : Bindings) (name : String) (h : name ≠ "") (v : Value) : Bindings where
  entries := put name v b.entries
  distinct := nodup_names_put b.distinct
  named hm := (mem_names_put.1 hm).elim (fun he => h he.symm) b.named

theorem get?_insert (b : Bindings) {name : String} (h : name ≠ "") (v : Value) (other : String) :
    (b.insert name h v).get? other = if other = name then some v else b.get? other :=
  lookup_put other

/-- Keep the entries for which `p` holds. -/
def filter (b : Bindings) (p : String × Value → Bool) : Bindings where
  entries := b.entries.filter p
  distinct := b.distinct.sublist (List.filter_sublist.map _)
  named hm := b.named ((List.filter_sublist.map _).subset hm)

/-- Remove a name. -/
def erase (b : Bindings) (name : String) : Bindings := b.filter fun e => e.1 ≠ name

end Bindings

end VectorCalc
