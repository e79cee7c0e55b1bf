import Mathlib
import VectorCalc.Bindings.Edit

/-!
# Binding and removing a name

What a table of bindings is after a name has been bound. A name that was bound before keeps its place
and a new one goes to the end; no other entry is touched. After a name has been removed the other ones
stand as they stood.
-/

namespace VectorCalc.Bindings

/-! ## Places of names -/

section

variable {α β : Type} [DecidableEq α] {name : α} {v : β} {es : List (α × β)}

/-- Where the name does not occur, putting it changes nothing but the end. -/
theorem put_of_not_mem (h : name ∉ es.map Prod.fst) : put name v es = es ++ [(name, v)] := by
  induction es with
  | nil => rfl
  | cons e es ih =>
    rw [List.map_cons, List.mem_cons, not_or] at h
    rw [put, if_neg (Ne.symm h.1), ih h.2, List.cons_append]

/-- Replacing the value of a name that does not occur changes nothing. -/
theorem replace_of_not_mem (h : name ∉ es.map Prod.fst) :
    es.map (fun e => if e.1 = name then (name, v) else e) = es := by
  have hne : ∀ e ∈ es, e.1 ≠ name := by
    intro e he hname
    exact h (hname ▸ List.mem_map_of_mem he)
  exact (List.map_congr_left fun e he => if_neg (hne e he)).trans (List.map_id _)

/-- Where the name occurs, putting it replaces its value. -/
theorem put_of_mem (hd : (es.map Prod.fst).Nodup) (h : name ∈ es.map Prod.fst) :
    put name v es = es.map fun e => if e.1 = name then (name, v) else e := by
  induction es with
  | nil => cases h
  | cons e es ih =>
    obtain ⟨hnot, hd⟩ := List.nodup_cons.1 hd
    rw [put, List.map_cons]
    by_cases he : e.1 = name
    · rw [if_pos he, if_pos he, replace_of_not_mem (he ▸ hnot)]
    · rw [if_neg he, if_neg he, ih hd ((List.mem_cons.1 h).resolve_left (Ne.symm he))]

end

/-! ## Tables -/

/-- The entries of a table with `name` bound to `v`: in the place of `name` if it has one, and else at
the end. -/
def boundEntries (b : Bindings) (name : String) (v : Value) : List (String × Value) :=
  if name ∈ b.names then b.entries.map fun e => if e.1 = name then (name, v) else e
  else b.entries ++ [(name, v)]

theorem entries_insert (b : Bindings) {name : String} (h : name ≠ "") (v : Value) :
    (b.insert name h v).entries = b.boundEntries name v := by
  rw [boundEntries]
  by_cases hm : name ∈ b.names
  · rw [if_pos hm]
    exact put_of_mem b.distinct hm
  · rw [if_neg hm]
    exact put_of_not_mem hm

/-- Binding a name keeps the names, and a new one goes to the end. -/
theorem names_boundEntries (b : Bindings) (x : String) (v : Value) :
    (b.boundEntries x v).map Prod.fst = if x ∈ b.names then b.names else b.names ++ [x] := by
  unfold boundEntries
  split_ifs with hx
  · rw [List.map_map]
    refine List.map_congr_left fun e _ => ?_
    show (if e.1 = x then (x, v) else e).1 = e.1
    split_ifs with he
    · exact he.symm
    · rfl
  · rw [List.map_append]
    rfl

/-- A table is its entries. -/
theorem eq_of_entries {b b' : Bindings} (h : b.entries = b'.entries) : b = b' := by
  cases b
  cases b'
  cases h
  rfl

/-- A table with these entries is the one that binding the name gives. -/
theorem eq_insert {b b' : Bindings} {name : String} {v : Value} (hname : name ≠ "")
    (h : b'.entries = b.boundEntries name v) : b' = b.insert name hname v :=
  eq_of_entries (h.trans (entries_insert b hname v).symm)

theorem names_insert (b : Bindings) {x : String} (named : x ≠ "") (v : Value) :
    (b.insert x named v).names = if x ∈ b.names then b.names else b.names ++ [x] := by
  rw [names, entries_insert, names_boundEntries]

/-- A value is bound to every name but the empty one. -/
theorem bind_value (b : Bindings) (name : String) (v : Value) :
    b.bind (.text name) (.value v) =
      if h : name = "" then .error (.misuse (.name (.text name))) else .ok (b.insert name h v) :=
  rfl

/-- The datum of a host is bound to no name. -/
theorem bind_foreign (b : Bindings) (name : String) (h : Host) :
    ∃ f, b.bind (.text name) (.foreign h) = .error f := by
  by_cases hname : name = ""
  · exact ⟨_, dif_pos hname⟩
  · exact ⟨_, dif_neg hname⟩

/-- A bound name has a value. -/
theorem exists_of_contains (b : Bindings) {name : String} (h : b.contains name = true) :
    ∃ v, b.get? name = some v := by
  have hmem : name ∈ b.entries.map Prod.fst := List.contains_iff_mem.1 h
  obtain ⟨e, he, rfl⟩ := List.mem_map.1 hmem
  exact Option.isSome_iff_exists.1 (List.lookup_isSome_iff.2 ⟨e, he, beq_self_eq_true _⟩)

/-- A name has the value with which it stands in the table. -/
theorem get?_eq_some_iff {b : Bindings} {x : String} {v : Value} :
    b.get? x = some v ↔ (x, v) ∈ b.entries := by
  have hmem : ∀ {v}, b.get? x = some v → (x, v) ∈ b.entries := by
    intro v h
    obtain ⟨front, back, hentries, -⟩ := List.lookup_eq_some_iff.1 h
    rw [hentries]
    exact List.mem_append_right _ List.mem_cons_self
  refine ⟨hmem, fun h => ?_⟩
  -- the value that is found stands under the same name, so it is the same one
  obtain ⟨v', hv'⟩ := b.exists_of_contains (List.contains_iff_mem.2 (List.mem_map_of_mem h))
  have hsame := List.inj_on_of_nodup_map b.distinct (hmem hv') h rfl
  cases hsame
  exact hv'

/-- A name is bound if it has a value. -/
theorem contains_eq_isSome (b : Bindings) (x : String) :
    b.contains x = (b.get? x).isSome := by
  have hbound : b.contains x = true ↔ (b.get? x).isSome = true := by
    constructor
    · intro h
      obtain ⟨v, hv⟩ := b.exists_of_contains h
      rw [hv, Option.isSome_some]
    · intro h
      obtain ⟨e, he, hx⟩ := List.lookup_isSome_iff.1 h
      rw [eq_of_beq hx]
      exact List.contains_iff_mem.2 (List.mem_map_of_mem he)
  exact Bool.eq_iff_iff.2 hbound

/-- The value under a name, or the fault that it is undefined. -/
theorem lookup_text (b : Bindings) (name : String) :
    b.lookup (.text name) =
      match b.get? name with
      | some v => .ok v
      | none => .error (.undefined (.text name)) := by
  show (match b.get? name with
    | some v => (.ok v : Except Fault Value)
    | none => .error (.undefined (.text name))) = _
  cases b.get? name <;> rfl

/-! ## Removing -/

theorem names_erase (b : Bindings) (x : String) : (b.erase x).names = b.names.filter (· ≠ x) := by
  rw [names, names, List.filter_map]
  rfl

/-- The entries of the other names are found as before. -/
theorem lookup_filter_ne (es : List (String × Value)) (x y : String) :
    (es.filter fun e => e.1 ≠ x).lookup y = if y = x then none else es.lookup y := by
  induction es with
  | nil => simp
  | cons e es ih =>
    obtain ⟨key, v⟩ := e
    by_cases hkey : key = x
    · rw [List.filter_cons_of_neg (by simpa using hkey), ih]
      split_ifs with hy
      · rfl
      · have hne : (y == key) = false := beq_eq_false_iff_ne.2 fun h => hy (h.trans hkey)
        rw [List.lookup_cons, hne]
    · rw [List.filter_cons_of_pos (by simpa using hkey), List.lookup_cons, List.lookup_cons, ih]
      split_ifs with hy
      · rw [beq_eq_false_iff_ne.2 fun h => hkey (h.symm.trans hy)]
      · rfl

theorem get?_erase (b : Bindings) (x y : String) :
    (b.erase x).get? y = if y = x then none else b.get? y := lookup_filter_ne b.entries x y

end VectorCalc.Bindings
