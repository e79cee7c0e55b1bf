import Mathlib
import VectorCalc.Proofs.Bindings

/-!
# The history of a table

What a host does to a table comes down to two kinds of changes: a name is bound to a value, or a name is
removed. A list of changes, the last one first, tells what the table is. The value of a name is the last
one that it was bound to, if it has not been removed since (`value?`). The names stand in the order in
which they were first bound, counted anew after a removal (`since?`).

The look-ups of a table give the values that its history tells, and say in their own ways that there is
none (`Recorded.reads`).

Each edit makes the changes that `Edit.changes` lists, and no others (`run_eq_changes`), and is answered
by the reply that `Edit.reply?` tells (`toOption_run`).
-/

namespace VectorCalc.Bindings

/-! ## Changes -/

/-- A change of a table. -/
inductive Change where
  | bound (name : String) (named : name ≠ "") (v : Value)
  | removed (name : String)

/-- The table after a change. -/
def Change.apply (b : Bindings) : Change → Bindings
  | .bound name named v => b.insert name named v
  | .removed name => b.erase name

section

variable (start : Bindings) (x : String)

/-- The value of a name after changes, the last one first, to the table `start`. -/
def value? : List Change → Option Value
  | [] => start.get? x
  | .bound y _ v :: older => if x = y then some v else value? older
  | .removed y :: older => if x = y then none else value? older

/-- When a bound name was first bound after its last removal. The names of the table `start` come before
the changes, in their order. -/
def since? : List Change → Option Nat
  | [] => start.names.idxOf? x
  | .bound y _ _ :: older =>
    if x = y then (since? older).or (some (start.size + older.length)) else since? older
  | .removed y :: older => if x = y then none else since? older

end

/-- What is stored under a name after changes. Only texts are names under which something is stored. -/
def stored? (start : Bindings) (past : List Change) : Host → Option Value
  | .text x => value? start x past
  | _ => none

/-- What the look-ups of a name say where `stored` is all that is stored under it: the value, or each in
its own way that there is none. -/
structure Reads (b : Bindings) (name : Host) (stored : Option Value) : Prop where
  lookup : b.lookup name = stored.elim (.error (.undefined name)) .ok
  fetch : b.fetch name = stored.elim (.error (.missing (some name))) .ok
  fetchD : ∀ d, b.fetchD name d = .ok (stored.elim d .value)

/-- All look-ups of a name are refused. -/
structure Refuses (b : Bindings) (name : Host) (f : Fault) : Prop where
  lookup : b.lookup name = .error f
  fetch : b.fetch name = .error f
  fetchD : ∀ d, b.fetchD name d = .error f

/-- The table `b` is what the changes tell of it. -/
structure Recorded (start b : Bindings) (past : List Change) : Prop where
  distinct : b.names.Nodup
  named : "" ∉ b.names
  found : ∀ x, b.find (.text x) = .ok (value? start x past)
  present : ∀ x, x ∈ b.names ↔ (since? start x past).isSome
  ordered : b.names.Pairwise fun x y => ∃ i j,
    since? start x past = some i ∧ since? start y past = some j ∧ i < j

variable {start b : Bindings} {past : List Change} {x : String}

theorem Recorded.get?_eq (h : Recorded start b past) (x : String) :
    b.get? x = value? start x past := Except.ok.inj (h.found x)

theorem Recorded.contains_eq (h : Recorded start b past) (x : String) :
    b.contains x = (value? start x past).isSome := by
  rw [contains_eq_isSome, h.get?_eq]

/-- A name that can be compared is looked for in the table, and all others are refused. -/
theorem Recorded.find_eq (h : Recorded start b past) (name : Host) :
    b.find name =
      if name.isComparable then .ok (stored? start past name)
      else .error (.misuse (.incomparable name.kind)) := by
  cases name with
  | text x => exact h.found x
  | _ => rfl

/-- The look-ups of a name give the value that the changes tell. -/
theorem Recorded.reads (h : Recorded start b past) {name : Host} (hname : name.isComparable = true) :
    Reads b name (stored? start past name) := by
  have hfind : b.find name = .ok (stored? start past name) := by
    rw [h.find_eq, if_pos hname]
  constructor
  · rw [lookup, hfind]
    cases stored? start past name <;> rfl
  · rw [fetch, hfind]
    cases stored? start past name <;> rfl
  · intro d
    rw [fetchD, hfind]
    cases stored? start past name <;> rfl

/-- A name that cannot be compared is refused by all look-ups. -/
theorem refuses_of_incomparable (b : Bindings) {name : Host} (hname : name.isComparable = false) :
    Refuses b name (.misuse (.incomparable name.kind)) := by
  cases name with
  | list | table => exact ⟨rfl, rfl, fun _ => rfl⟩
  | _ => cases hname

theorem recorded_start (start : Bindings) : Recorded start start [] where
  distinct := start.distinct
  named := start.named
  found _ := rfl
  present _ := List.isSome_idxOf?.symm
  ordered := by
    rw [List.pairwise_iff_getElem]
    intro i j hi hj hij
    -- a name of the table has its own place there
    have hplace : ∀ i (hi : i < start.names.length),
        since? start start.names[i] [] = some i := by
      intro i hi
      refine List.idxOf?_eq_some_iff.2 ⟨hi, rfl, fun j hj heq => ?_⟩
      have hsame := (start.distinct.getElem_inj_iff).1 heq
      omega
    exact ⟨i, j, hplace i hi, hplace j hj, hij⟩

/-- Names were bound before the changes that are still to come. -/
theorem since?_lt {i : Nat} (h : since? start x past = some i) :
    i < start.size + past.length := by
  induction past generalizing i with
  | nil =>
    obtain ⟨hi, -⟩ := List.idxOf?_eq_some_iff.1 h
    rw [names, List.length_map] at hi
    exact hi
  | cons c older ih =>
    rw [List.length_cons]
    cases c with
    | bound y named v =>
      rw [since?] at h
      split_ifs at h with hx
      · cases hold : since? start x older with
        | none =>
          rw [hold] at h
          cases h
          omega
        | some k =>
          rw [hold] at h
          cases h
          have := ih hold
          omega
      · have := ih h
        omega
    | removed y =>
      rw [since?] at h
      split_ifs at h with hx
      have := ih h
      omega

/-! ## Binding and removing -/

section

variable {y : String} {named : x ≠ ""} {v : Value}

theorem since?_bound_of_ne (hy : y ≠ x) :
    since? start y (.bound x named v :: past) = since? start y past := if_neg hy

theorem since?_bound_self :
    since? start x (.bound x named v :: past) =
      (since? start x past).or (some (start.size + past.length)) := if_pos rfl

/-- A name that is bound already keeps its place, and so do all others. -/
theorem since?_bound_of_isSome (hx : (since? start x past).isSome) (y : String) :
    since? start y (.bound x named v :: past) = since? start y past := by
  obtain ⟨i, hi⟩ := Option.isSome_iff_exists.1 hx
  by_cases hy : y = x
  · rw [hy, since?_bound_self, hi]
    rfl
  · exact since?_bound_of_ne hy

theorem since?_removed_of_ne (hy : y ≠ x) :
    since? start y (.removed x :: past) = since? start y past := if_neg hy

end

/-- A name that is bound already keeps its place, and a new one gets the last place. -/
theorem Recorded.bound (h : Recorded start b past) (named : x ≠ "") (v : Value) :
    Recorded start (b.insert x named v) (.bound x named v :: past) := by
  refine ⟨(b.insert x named v).distinct, (b.insert x named v).named, fun y => ?_, fun y => ?_, ?_⟩
  · show Except.ok ((b.insert x named v).get? y) = _
    rw [get?_insert, h.get?_eq, value?]
  · have hmem : y ∈ (b.insert x named v).names ↔ y = x ∨ y ∈ b.names := mem_names_put
    rw [hmem]
    by_cases hy : y = x
    · simp [hy, since?_bound_self]
    · rw [since?_bound_of_ne hy, ← h.present]
      simp [hy]
  · rw [names_insert]
    split_ifs with hx
    · simp only [since?_bound_of_isSome ((h.present x).1 hx)]
      exact h.ordered
    · have hnone : since? start x past = none := by
        rw [← Option.not_isSome_iff_eq_none, ← h.present]
        exact hx
      have hne : ∀ y ∈ b.names, y ≠ x := fun y hy heq => hx (heq ▸ hy)
      refine List.pairwise_append.2 ⟨?_, List.pairwise_singleton _ _, ?_⟩
      · refine h.ordered.imp_of_mem fun {y z} hy hz hyz => ?_
        rw [since?_bound_of_ne (hne y hy), since?_bound_of_ne (hne z hz)]
        exact hyz
      · -- all other names came before the new one
        intro y hy z hz
        obtain rfl := List.mem_singleton.1 hz
        obtain ⟨i, hi⟩ := Option.isSome_iff_exists.1 ((h.present y).1 hy)
        refine ⟨i, start.size + past.length, ?_, ?_, since?_lt hi⟩
        · rw [since?_bound_of_ne (hne y hy), hi]
        · rw [since?_bound_self, hnone, Option.none_or]

/-- The other names keep their places. -/
theorem Recorded.removed (h : Recorded start b past) (x : String) :
    Recorded start (b.erase x) (.removed x :: past) := by
  refine ⟨(b.erase x).distinct, (b.erase x).named, fun y => ?_, fun y => ?_, ?_⟩
  · show Except.ok ((b.erase x).get? y) = _
    rw [get?_erase, h.get?_eq, value?]
  · rw [names_erase, List.mem_filter]
    by_cases hy : y = x
    · simp [hy, since?]
    · rw [since?_removed_of_ne hy, ← h.present]
      simp [hy]
  · rw [names_erase]
    refine (h.ordered.filter _).imp_of_mem fun {y z} hy hz hyz => ?_
    have hy' := of_decide_eq_true (List.mem_filter.1 hy).2
    have hz' := of_decide_eq_true (List.mem_filter.1 hz).2
    rw [since?_removed_of_ne hy', since?_removed_of_ne hz']
    exact hyz

theorem Recorded.apply (h : Recorded start b past) (c : Change) :
    Recorded start (c.apply b) (c :: past) := by
  cases c with
  | bound x named v => exact h.bound named v
  | removed x => exact h.removed x

/-- The table after some changes, the first one first. -/
def applyAll (b : Bindings) (cs : List Change) : Bindings := cs.foldl Change.apply b

theorem Recorded.applyAll (h : Recorded start b past) (cs : List Change) :
    Recorded start (b.applyAll cs) (cs.reverse ++ past) := by
  induction cs generalizing b past with
  | nil => exact h
  | cons c cs ih =>
    rw [List.reverse_cons, List.append_assoc]
    exact ih (h.apply c)

/-! ## Edits -/

/-- The change by which a datum is stored under a name. Names are texts that are not empty, and only
values are stored. -/
def binding? : Host → Datum → Option Change
  | .text x, .value v => if h : x = "" then none else some (.bound x h v)
  | _, _ => none

/-- The name under which something is stored. -/
def bound? (b : Bindings) : Host → Option String
  | .text x => if x ∈ b.names then some x else none
  | _ => none

/-- The changes that an edit of a table makes, the first one first. -/
def Edit.changes (b : Bindings) : Edit → List Change
  | .set name d | .assign name d => (binding? name d).toList
  | .delete name | .pop name _ => (b.bound? name).toList.map .removed
  | .popOldest => b.names.head?.toList.map .removed
  | .setDefault name d => if (b.bound? name).isSome then [] else (binding? name d).toList
  | .update pairs =>
    (pairs.takeWhile fun p => (binding? p.1 p.2).isSome).filterMap fun p => binding? p.1 p.2
  | .clear => b.names.map .removed

variable {name : Host} {d : Datum}

/-- A datum is stored or refused. -/
theorem bind_cases (b : Bindings) (name : Host) (d : Datum) :
    (∃ c, binding? name d = some c ∧ b.bind name d = .ok (c.apply b)) ∨
      binding? name d = none ∧ ∃ f, b.bind name d = .error f := by
  cases name with
  | text x =>
    cases d with
    | value v =>
      rw [bind_value, binding?]
      by_cases hx : x = ""
      · rw [dif_pos hx, dif_pos hx]
        exact .inr ⟨rfl, _, rfl⟩
      · rw [dif_neg hx, dif_neg hx]
        exact .inl ⟨_, rfl, rfl⟩
    | foreign h => exact .inr ⟨rfl, b.bind_foreign x h⟩
  | _ => exact .inr ⟨rfl, _, rfl⟩

/-- A name is found, or nothing is stored under it; what cannot be looked for is never stored. -/
theorem find_cases (b : Bindings) (name : Host) :
    (∃ x v, name = .text x ∧ b.bound? name = some x ∧ b.find name = .ok (some v)) ∨
      b.bound? name = none ∧ (b.find name = .ok none ∨
        (∃ f, b.find name = .error f) ∧ ∀ d, binding? name d = none) := by
  cases name with
  | text x =>
    have hfind : b.find (.text x) = .ok (b.get? x) := rfl
    rw [hfind]
    by_cases hx : x ∈ b.names
    · obtain ⟨v, hv⟩ := b.exists_of_contains (List.contains_iff_mem.2 hx)
      exact .inl ⟨x, v, rfl, if_pos hx, by rw [hv]⟩
    · have hnone : b.get? x = none := by
        rw [← Option.not_isSome_iff_eq_none, ← contains_eq_isSome]
        exact fun h => hx (List.contains_iff_mem.1 h)
      exact .inr ⟨if_neg hx, .inl (by rw [hnone])⟩
  | list | table => exact .inr ⟨rfl, .inr ⟨⟨_, rfl⟩, fun _ => rfl⟩⟩
  | _ => exact .inr ⟨rfl, .inl rfl⟩

/-- A name is removed where it is found. -/
theorem remove_cases (b : Bindings) (name : Host) :
    (∃ x v, name = .text x ∧ b.bound? name = some x ∧ b.find name = .ok (some v) ∧
      b.remove name = .ok (v, b.erase x)) ∨
      b.bound? name = none ∧ ∃ f, b.remove name = .error f := by
  rcases b.find_cases name with ⟨x, v, rfl, hbound, hfind⟩ | ⟨hbound, hfind | ⟨⟨f, hfind⟩, -⟩⟩
  · refine .inl ⟨x, v, rfl, hbound, hfind, ?_⟩
    rw [remove, fetch, hfind]
    rfl
  · refine .inr ⟨hbound, ?_⟩
    rw [remove, fetch, hfind]
    exact ⟨_, rfl⟩
  · refine .inr ⟨hbound, ?_⟩
    rw [remove, fetch, hfind]
    exact ⟨_, rfl⟩

/-- Names that are removed one after the other leave the entries of the others. -/
theorem entries_removeAll (b : Bindings) (xs : List String) :
    (b.applyAll (xs.map .removed)).entries = b.entries.filter fun e => e.1 ∉ xs := by
  induction xs generalizing b with
  | nil => simp [applyAll]
  | cons x xs ih =>
    have hrest := ih (b.erase x)
    show ((b.erase x).applyAll (xs.map .removed)).entries = _
    rw [hrest]
    show (b.entries.filter _).filter _ = _
    rw [List.filter_filter]
    refine List.filter_congr fun e _ => ?_
    simp [Bool.and_comm]

/-- Names and values are bound up to the first pair that is refused. -/
theorem bindAll_cases (pairs : List (Host × Datum)) (b : Bindings) :
    (bindAll pairs b).2 = b.applyAll (Edit.changes b (.update pairs)) ∧
      ((bindAll pairs b).1 = .ok () ↔ ∀ p ∈ pairs, (binding? p.1 p.2).isSome) := by
  induction pairs generalizing b with
  | nil => exact ⟨rfl, by simp [bindAll]⟩
  | cons p pairs ih =>
    obtain ⟨name, d⟩ := p
    rcases b.bind_cases name d with ⟨c, hc, hbind⟩ | ⟨hnone, f, hbind⟩
    · obtain ⟨htable, houtcome⟩ := ih (c.apply b)
      rw [bindAll, hbind]
      refine ⟨?_, ?_⟩
      · rw [htable]
        simp [Edit.changes, hc, applyAll]
      · rw [houtcome]
        simp [hc]
    · rw [bindAll, hbind]
      simp [Edit.changes, hnone, applyAll]

/-- An edit makes its changes and no others. -/
theorem run_eq_changes (b : Bindings) (e : Edit) : (e.run b).2 = b.applyAll (e.changes b) := by
  cases e with
  | set name d | assign name d =>
    rcases b.bind_cases name d with ⟨c, hc, hbind⟩ | ⟨hnone, f, hbind⟩
    · simp only [Edit.run, hbind, Edit.changes, hc]
      rfl
    · simp only [Edit.run, hbind, Edit.changes, hnone]
      rfl
  | delete name =>
    rcases b.remove_cases name with ⟨x, v, rfl, hbound, -, hremove⟩ | ⟨hnone, f, hremove⟩
    · simp only [Edit.run, hremove, Edit.changes, hbound]
      rfl
    · simp only [Edit.run, hremove, Edit.changes, hnone]
      rfl
  | pop name default =>
    rcases b.remove_cases name with ⟨x, v, rfl, hbound, hfind, hremove⟩ | ⟨hnone, f, hremove⟩
    · cases default with
      | none =>
        simp only [Edit.run, hremove, Edit.changes, hbound]
        rfl
      | some d =>
        simp only [Edit.run, hfind, hremove, Edit.changes, hbound]
        rfl
    · cases default with
      | none =>
        simp only [Edit.run, hremove, Edit.changes, hnone]
        rfl
      | some d =>
        -- the default is replied where nothing is stored, and nothing changes
        simp only [Edit.run, Edit.changes, hnone]
        rcases b.find_cases name with ⟨x, v, rfl, hbound, -⟩ | ⟨-, hfind | ⟨⟨f, hfind⟩, -⟩⟩
        · cases hnone.symm.trans hbound
        · rw [hfind]
          rfl
        · rw [hfind]
          rfl
  | popOldest =>
    simp only [Edit.run, Edit.changes, names]
    cases b.entries <;> rfl
  | setDefault name d =>
    rcases b.find_cases name with ⟨x, v, rfl, hbound, hfind⟩ | ⟨hnone, hfind | ⟨⟨f, hfind⟩, hrefused⟩⟩
    · simp only [Edit.run, hfind, Edit.changes, hbound]
      rfl
    · rcases b.bind_cases name d with ⟨c, hc, hbind⟩ | ⟨hrefused, f, hbind⟩
      · simp only [Edit.run, hfind, hbind, Edit.changes, hnone, hc]
        rfl
      · simp only [Edit.run, hfind, hbind, Edit.changes, hnone, hrefused]
        rfl
    · simp only [Edit.run, hfind, Edit.changes, hnone, hrefused]
      rfl
  | update pairs => exact (bindAll_cases pairs b).1
  | clear =>
    refine eq_of_entries ?_
    rw [Edit.changes, entries_removeAll]
    refine Eq.symm (List.filter_eq_nil_iff.2 fun e he => ?_)
    have hmem : e.1 ∈ b.names := List.mem_map_of_mem he
    simpa using hmem

/-! ## Replies -/

/-- The reply to an edit of the table `b`, or nothing where the edit is refused. Looking up and removing
reply what is stored, or the default; a batch of bindings has a reply if none of them is refused. -/
def Edit.reply? (b : Bindings) : Edit → Option Reply
  | .set name d => (binding? name d).map fun _ => .done
  | .assign name d => (binding? name d).map fun _ => .datum d
  | .delete name => (stored? b [] name).map fun _ => .done
  | .pop name none => (stored? b [] name).map fun v => .datum (.value v)
  | .pop name (some d) =>
    if name.isComparable then some (.datum ((stored? b [] name).elim d .value)) else none
  | .popOldest => b.entries.head?.map fun e => .entry e.1 e.2
  | .setDefault name d =>
    match stored? b [] name with
    | some v => some (.datum (.value v))
    | none => (binding? name d).map fun _ => .datum d
  | .update pairs => if ∀ p ∈ pairs, (binding? p.1 p.2).isSome then some .done else none
  | .clear => some .done

/-- Nothing is stored under a name that cannot be compared, and it cannot be bound. -/
theorem unused_of_incomparable (b : Bindings) {name : Host} (hname : name.isComparable = false) :
    stored? b [] name = none ∧ ∀ d, binding? name d = none := by
  cases name with
  | list | table => exact ⟨rfl, fun _ => rfl⟩
  | _ => cases hname

/-- What is stored under a name is removed, and where nothing is stored the removal is refused. -/
theorem remove_reply (b : Bindings) (name : Host) :
    (∃ v b', stored? b [] name = some v ∧ b.remove name = .ok (v, b')) ∨
      stored? b [] name = none ∧ ∃ f, b.remove name = .error f := by
  by_cases hname : name.isComparable = true
  · have hfetch := ((recorded_start b).reads hname).fetch
    cases hstored : stored? b [] name with
    | none =>
      rw [hstored] at hfetch
      right
      rw [remove, hfetch]
      exact ⟨rfl, _, rfl⟩
    | some v =>
      rw [hstored] at hfetch
      left
      rw [remove, hfetch]
      cases name <;> exact ⟨v, _, rfl, rfl⟩
  · have hname := eq_false_of_ne_true hname
    right
    rw [remove, (b.refuses_of_incomparable hname).fetch]
    exact ⟨(b.unused_of_incomparable hname).1, _, rfl⟩

/-- A removal is answered by what was stored under the name, as far as `reply` tells it. -/
theorem toOption_remove (b : Bindings) (name : Host) (reply : Value → Reply) :
    (b.orKeep ((b.remove name).map fun r => (reply r.1, r.2))).1.toOption =
      (stored? b [] name).map reply := by
  rcases b.remove_reply name with ⟨v, b', hstored, hremove⟩ | ⟨hstored, f, hremove⟩
  · rw [hremove, hstored]
    rfl
  · rw [hremove, hstored]
    rfl

/-- An edit is answered by its reply, and refused where it has none. -/
theorem toOption_run (b : Bindings) (e : Edit) : (e.run b).1.toOption = e.reply? b := by
  cases e with
  | set name d | assign name d =>
    rcases b.bind_cases name d with ⟨c, hc, hbind⟩ | ⟨hnone, f, hbind⟩
    · simp only [Edit.run, hbind, Edit.reply?, hc]
      rfl
    · simp only [Edit.run, hbind, Edit.reply?, hnone]
      rfl
  | delete name => exact b.toOption_remove name fun _ => .done
  | pop name default =>
    cases default with
    | none => exact b.toOption_remove name fun v => .datum (.value v)
    | some d =>
      have hfind := (recorded_start b).find_eq name
      by_cases hname : name.isComparable = true
      · rw [if_pos hname] at hfind
        simp only [Edit.run, hfind, Edit.reply?, if_pos hname]
        rcases b.remove_reply name with ⟨v, b', hstored, hremove⟩ | ⟨hstored, -⟩
        · rw [hstored, hremove]
          rfl
        · rw [hstored]
          rfl
      · rw [if_neg hname] at hfind
        simp only [Edit.run, hfind, Edit.reply?, if_neg hname]
        rfl
  | popOldest =>
    simp only [Edit.run, Edit.reply?]
    cases b.entries <;> rfl
  | setDefault name d =>
    have hfind := (recorded_start b).find_eq name
    by_cases hname : name.isComparable = true
    · rw [if_pos hname] at hfind
      simp only [Edit.run, hfind, Edit.reply?]
      cases hstored : stored? b [] name with
      | some v => rfl
      | none =>
        rcases b.bind_cases name d with ⟨c, hc, hbind⟩ | ⟨hnone, f, hbind⟩
        · rw [hbind, hc]
          rfl
        · rw [hbind, hnone]
          rfl
    · rw [if_neg hname] at hfind
      obtain ⟨hstored, hnone⟩ := b.unused_of_incomparable (eq_false_of_ne_true hname)
      simp only [Edit.run, hfind, Edit.reply?, hstored, hnone]
      rfl
  | update pairs =>
    have houtcome := (bindAll_cases pairs b).2
    show ((bindAll pairs b).1.map fun _ => Reply.done).toOption = _
    rw [Edit.reply?]
    split_ifs with hall
    · rw [houtcome.2 hall]
      rfl
    · cases hbind : (bindAll pairs b).1 with
      | ok _ => exact absurd (houtcome.1 hbind) hall
      | error f => rfl
  | clear => rfl

/-! ## Refused edits -/

/-- Whatever is refused, unless it is one of several bindings, changes nothing. -/
theorem kept_of_error (b : Bindings) {e : Edit} {f : Fault} (h : (e.run b).1 = .error f) :
    (∃ pairs, e = .update pairs) ∨ (e.run b).2 = b := by
  -- a change that may fail either gives a reply or keeps the table
  have hkeep : ∀ o : Except Fault (Reply × Bindings), (b.orKeep o).1 = .error f →
      (b.orKeep o).2 = b := by
    intro o ho
    cases o with
    | error f => rfl
    | ok p => cases ho
  cases e with
  | update pairs => exact .inl ⟨pairs, rfl⟩
  | set name d | assign name d | delete name | setDefault name d => exact .inr (hkeep _ h)
  | pop name default => cases default <;> exact .inr (hkeep _ h)
  | popOldest =>
    right
    simp only [Edit.run] at h ⊢
    split at h
    · rfl
    · cases h
  | clear => cases h

/-- A single binding is taken, whatever the table, if there is a change that makes it. -/
theorem set_eq_ok_iff (b : Bindings) (name : Host) (d : Datum) :
    ((Edit.set name d).run b).1 = .ok .done ↔ (binding? name d).isSome := by
  rcases b.bind_cases name d with ⟨c, hc, hbind⟩ | ⟨hnone, f, hbind⟩
  · simp only [Edit.run, hbind, hc]
    exact iff_of_true rfl rfl
  · simp only [Edit.run, hbind, hnone]
    exact iff_of_false nofun nofun

/-- Single bindings in sequence make their changes; those that are refused make none. -/
theorem foldl_set_eq (b : Bindings) (pairs : List (Host × Datum)) :
    pairs.foldl (fun b p => ((Edit.set p.1 p.2).run b).2) b =
      b.applyAll (pairs.filterMap fun p => binding? p.1 p.2) := by
  induction pairs generalizing b with
  | nil => rfl
  | cons p pairs ih =>
    rw [List.foldl_cons, ih, run_eq_changes, Edit.changes, List.filterMap_cons]
    cases binding? p.1 p.2 <;> rfl

/-- Several bindings are the single ones in sequence, up to the first that is refused. -/
theorem update_eq (b : Bindings) (pairs : List (Host × Datum)) :
    ((Edit.update pairs).run b).2 =
        (pairs.takeWhile fun p => (binding? p.1 p.2).isSome).foldl
          (fun b p => ((Edit.set p.1 p.2).run b).2) b ∧
      (((Edit.update pairs).run b).1 = .ok .done ↔ ∀ p ∈ pairs, (binding? p.1 p.2).isSome) := by
  obtain ⟨htable, houtcome⟩ := bindAll_cases pairs b
  refine ⟨?_, ?_⟩
  · show (bindAll pairs b).2 = _
    rw [htable, foldl_set_eq]
    rfl
  · rw [← houtcome]
    show ((bindAll pairs b).1.map fun _ => Reply.done) = _ ↔ _
    cases (bindAll pairs b).1 <;> simp [Except.map]

/-! ## Tables that agree -/

/-- Two tables agree if all names have the same values, in whatever order they stand. -/
theorem agree_iff (b b' : Bindings) : b.agree b' = true ↔ ∀ x, b.get? x = b'.get? x := by
  have hnodup : ∀ b : Bindings, b.entries.Nodup := fun b => b.distinct.of_map _
  rw [agree, Bool.and_eq_true, decide_eq_true_eq, List.all_eq_true]
  constructor
  · rintro ⟨hsize, hall⟩ x
    have hsub : b.entries ⊆ b'.entries := fun e he =>
      get?_eq_some_iff.1 (of_decide_eq_true (hall e he))
    -- tables of one size with the entries of one in the other have the same entries
    have hperm : b.entries.Perm b'.entries :=
      (List.subperm_of_subset (hnodup b) hsub).perm_of_length_le hsize.ge
    refine Option.ext fun v => ?_
    rw [get?_eq_some_iff, get?_eq_some_iff, hperm.mem_iff]
  · intro h
    have hperm : b.entries.Perm b'.entries := by
      refine (List.perm_ext_iff_of_nodup (hnodup b) (hnodup b')).2 fun e => ?_
      rw [← get?_eq_some_iff, h, get?_eq_some_iff]
    refine ⟨hperm.length_eq, fun e he => decide_eq_true ?_⟩
    rw [← h]
    exact get?_eq_some_iff.2 he

/-! ## Histories -/

/-- The table after some edits. -/
def after (b : Bindings) (edits : List Edit) : Bindings := edits.foldl (fun b e => (e.run b).2) b

/-- All changes that some edits make, the last one first. -/
def history (b : Bindings) : List Edit → List Change
  | [] => []
  | e :: es => history (e.run b).2 es ++ (e.changes b).reverse

theorem recorded_after (h : Recorded start b past) (edits : List Edit) :
    Recorded start (b.after edits) (b.history edits ++ past) := by
  induction edits generalizing b past with
  | nil => exact h
  | cons e es ih =>
    rw [history, List.append_assoc]
    have hstep : Recorded start (e.run b).2 ((e.changes b).reverse ++ past) := by
      rw [run_eq_changes]
      exact h.applyAll (e.changes b)
    exact ih hstep

/-- After any edits the table is what their changes tell of it: so are all look-ups, which fail where
nothing is stored, and refuse a name that cannot be compared. An edit replies what was stored, and one
that is refused changes nothing, except that of several bindings those before the first refused one are
kept. Tables agree if they have the same values, whatever their order. -/
theorem edits_recorded (b : Bindings) (edits : List Edit) :
    Recorded b (b.after edits) (b.history edits) ∧
      (∀ name : Host, name.isComparable = true →
        Reads (b.after edits) name (stored? b (b.history edits) name)) ∧
      (∀ name : Host, name.isComparable = false →
        Refuses (b.after edits) name (.misuse (.incomparable name.kind))) ∧
      (∀ x, (b.after edits).contains x = (value? b x (b.history edits)).isSome) ∧
      (∀ (b : Bindings) (e : Edit), (e.run b).1.toOption = e.reply? b) ∧
      (∀ (b : Bindings) (e : Edit) f, (e.run b).1 = .error f →
        (∃ pairs, e = .update pairs) ∨ (e.run b).2 = b) ∧
      (∀ (b : Bindings) pairs,
        ((Edit.update pairs).run b).2 =
            (pairs.takeWhile fun p => (binding? p.1 p.2).isSome).foldl
              (fun b p => ((Edit.set p.1 p.2).run b).2) b ∧
          (((Edit.update pairs).run b).1 = .ok .done ↔
            ∀ p ∈ pairs, (binding? p.1 p.2).isSome)) ∧
      (∀ (b : Bindings) name d,
        ((Edit.set name d).run b).1 = .ok .done ↔ (binding? name d).isSome) ∧
      ∀ b b' : Bindings, b.agree b' = true ↔ ∀ x, b.get? x = b'.get? x := by
  have hrecorded := recorded_after (recorded_start b) edits
  rw [List.append_nil] at hrecorded
  exact ⟨hrecorded, fun _ => hrecorded.reads, fun _ => refuses_of_incomparable _,
    hrecorded.contains_eq, toOption_run, fun b _ _ => kept_of_error b, update_eq, set_eq_ok_iff,
    agree_iff⟩

/-- The oldest name is undefined after it was removed, and the other one keeps its value. The empty name
is refused as a default, and the table stays as it was. -/
theorem edits_recorded_default :
    Recorded .empty
        (after .empty [.set (.text "x") (.value (.int 1)), .set (.text "y") (.value (.int 2)),
          .popOldest])
        (history .empty [.set (.text "x") (.value (.int 1)), .set (.text "y") (.value (.int 2)),
          .popOldest]) ∧
      (after .empty [.set (.text "x") (.value (.int 1)), .set (.text "y") (.value (.int 2)),
          .popOldest]).lookup (.text "x") = .error (.undefined (.text "x")) ∧
      (after .empty [.set (.text "x") (.value (.int 1)), .set (.text "y") (.value (.int 2)),
          .popOldest]).fetch (.text "y") = .ok (.int 2) ∧
      ((Edit.setDefault (.text "") (.value (.int 1))).run .empty).2 = .empty := by
  obtain ⟨hrecorded, hreads, -, -, -, hkept, -⟩ :=
    edits_recorded .empty
      [.set (.text "x") (.value (.int 1)), .set (.text "y") (.value (.int 2)), .popOldest]
  refine ⟨hrecorded, (hreads (.text "x") rfl).lookup, (hreads (.text "y") rfl).fetch, ?_⟩
  rcases hkept .empty (.setDefault (.text "") (.value (.int 1))) _ rfl with ⟨pairs, h⟩ | h
  · cases h
  · exact h

/-- A name that is bound again keeps its place, one that was removed comes back at the end, and nothing
behind the empty name is bound. -/
example :
    (after .empty [.set (.text "x") (.value (.int 1)), .set (.text "y") (.value (.int 2)),
      .delete (.text "x"), .set (.text "y") (.value (.int 3)),
      .update [(.text "x", .value (.int 4)), (.text "", .value (.int 5)),
        (.text "z", .value (.int 6))]]).entries = [("y", .int 3), ("x", .int 4)] := by
  decide +kernel

end VectorCalc.Bindings
