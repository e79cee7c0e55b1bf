import VectorCalc.Proofs.Machine.Atomic

/-!
# Effects of evaluation

A tree of a host may have assignments anywhere. When it is evaluated these are made in a fixed order,
each when its right side has been evaluated, and a fault may come between any two of them. What is left
in the table is the work of the first few (`evaluate_makes`): no assignment is left out between two
others, none is made twice, and nothing but an assignment touches the table.
-/

namespace VectorCalc

/-- The assignments of a tree in the order in which they are made: those of a left operand before those
of the right one, and those of a right side before the assignment itself. -/
def Expr.assignments : Expr → List (String × Expr)
  | .literal _ | .ref _ | .foreign _ => []
  | .assign name value => value.assignments ++ [(name, value)]
  | .unary _ operand => operand.assignments
  | .binary _ left right => left.assignments ++ right.assignments

namespace Run

/-! ## Assignments in sequence -/

/-- Assignments, made in order, take the first table to the second one. An assignment is made behind
those of its right side, and binds its name to the value that the right side has then. -/
inductive Makes (s : Settings) : Bindings → List (String × Expr) → Bindings → Prop where
  | none (b : Bindings) : Makes s b [] b
  | assign {m m' : Machine} {name : String} {rhs : Expr} {v : Value} {b : Bindings}
    (hrhs : rhs.evaluate s m = (.ok (.value v), m'))
    (hinner : Makes s m.bindings rhs.assignments m'.bindings) (hname : name ≠ "")
    (hb : b.entries = m'.bindings.boundEntries name v) :
    Makes s m.bindings (rhs.assignments ++ [(name, rhs)]) b
  | append {b b' b'' : Bindings} {as as' : List (String × Expr)} (h : Makes s b as b')
    (h' : Makes s b' as' b'') : Makes s b (as ++ as') b''

variable {α β : Type} {s : Settings} {as as' : List (String × Expr)} {b b' : Bindings}

/-- A name that is not assigned to keeps its value. -/
theorem Makes.get?_eq (h : Makes s b as b') {x : String} (hx : x ∉ as.map Prod.fst) :
    b'.get? x = b.get? x := by
  induction h with
  | none b => rfl
  | assign hrhs hinner hname hb ih =>
    rw [List.map_append, List.mem_append, not_or] at hx
    obtain ⟨hinnerx, hx⟩ := hx
    rw [Bindings.eq_insert hname hb, Bindings.get?_insert, ih hinnerx]
    exact if_neg fun h => hx (List.mem_singleton.2 h)
  | append h h' ih ih' =>
    rw [List.map_append, List.mem_append, not_or] at hx
    exact (ih' hx.2).trans (ih hx.1)

/-- Names keep their places, and new ones go to the end. -/
theorem Makes.names_prefix (h : Makes s b as b') : b.names <+: b'.names := by
  induction h with
  | none b => exact List.prefix_refl _
  | @assign m m' name rhs v b hrhs hinner hname hb ih =>
    have hnames : b.names = if name ∈ m'.bindings.names then m'.bindings.names
        else m'.bindings.names ++ [name] := by
      rw [Bindings.names, hb, Bindings.names_boundEntries]
    rw [hnames]
    split_ifs
    · exact ih
    · exact ih.trans (List.prefix_append _ _)
  | append h h' ih ih' => exact ih.trans ih'

/-! ## Computations -/

/-- The computation makes some of the assignments, from the first one on, and nothing else; it makes
them all if no fault arises. -/
def Effects (s : Settings) (as : List (String × Expr)) (x : Run α) : Prop :=
  ∀ m, ∃ made, made <+: as ∧ Makes s m.bindings made (x m).2.bindings ∧
    ∀ a, (x m).1 = .ok a → made = as

theorem effects_of_keeps {x : Run α} (hx : Keeps x) : Effects s [] x := by
  intro m
  refine ⟨[], List.prefix_refl _, ?_, fun _ _ => rfl⟩
  rw [hx m]
  exact .none _

theorem effects_throw (as : List (String × Expr)) (f : Fault) :
    Effects s as (throw f : Run α) := fun m =>
  ⟨[], List.nil_prefix, .none m.bindings, nofun⟩

theorem Effects.bind {x : Run α} {k : α → Run β} (hx : Effects s as x)
    (hk : ∀ a, Effects s as' (k a)) : Effects s (as ++ as') (x >>= k) := by
  intro m
  obtain ⟨made, hprefix, hmakes, hall⟩ := hx m
  rcases hrun : x m with ⟨f | a, m'⟩
  · rw [Token.Reader.run_bind_of_error hrun]
    rw [hrun] at hmakes
    exact ⟨made, hprefix.trans (List.prefix_append _ _), hmakes, nofun⟩
  · rw [Token.Reader.run_bind_of_ok hrun]
    rw [hrun] at hmakes hall
    obtain rfl := hall a rfl
    obtain ⟨made', hprefix', hmakes', hall'⟩ := hk a m'
    exact ⟨made ++ made', (List.prefix_append_right_inj _).2 hprefix', hmakes.append hmakes',
      fun b hb => congrArg _ (hall' b hb)⟩

/-- What follows a tree and changes nothing. -/
theorem Effects.bind_keeps {x : Run α} {k : α → Run β} (hx : Effects s as x)
    (hk : ∀ a, Keeps (k a)) : Effects s as (x >>= k) := by
  have h := hx.bind fun a => effects_of_keeps (hk a)
  rw [List.append_nil] at h
  exact h

/-- An assignment is made if its right side has a value and its name is not empty. -/
theorem effects_assign {rhs : Expr} (h : Effects s rhs.assignments (rhs.evaluate s))
    (name : String) : Effects s (rhs.assignments ++ [(name, rhs)])
      (rhs.evaluate s >>= assign name) := by
  intro m
  obtain ⟨made, hprefix, hmakes, hall⟩ := h m
  have hprefix' := hprefix.trans (List.prefix_append rhs.assignments [(name, rhs)])
  rcases hrun : rhs.evaluate s m with ⟨f | d, m'⟩
  · rw [Token.Reader.run_bind_of_error hrun]
    rw [hrun] at hmakes
    exact ⟨made, hprefix', hmakes, nofun⟩
  · rw [Token.Reader.run_bind_of_ok hrun]
    rw [hrun] at hmakes hall
    obtain rfl := hall d rfl
    cases d with
    | foreign h =>
      obtain ⟨f, hf⟩ := m'.bindings.bind_foreign name h
      rw [assign_of_error hf]
      exact ⟨_, hprefix', hmakes, nofun⟩
    | value v =>
      by_cases hname : name = ""
      · have hbind := m'.bindings.bind_value name v
        rw [dif_pos hname] at hbind
        rw [assign_of_error hbind]
        exact ⟨_, hprefix', hmakes, nofun⟩
      · rcases assign_value name v m' with ⟨hempty, -⟩ | ⟨m'', hassign, hm''⟩
        · exact absurd hempty hname
        · rw [hassign]
          exact ⟨_, List.prefix_refl _, .assign hrun hmakes hname hm'', fun _ _ => rfl⟩

/-- An evaluation makes the assignments of its tree, up to a fault. -/
theorem effects_evaluate (s : Settings) (e : Expr) : Effects s e.assignments (e.evaluate s) := by
  induction e with
  | literal d => exact effects_of_keeps (keeps_pure d)
  | ref name => exact effects_of_keeps (keeps_lookup name)
  | foreign kind => exact effects_of_keeps (keeps_throw _)
  | assign name value ih => exact effects_assign ih name
  | unary symbol operand ih =>
    rw [Expr.evaluate]
    split
    · exact effects_throw _ _
    · exact ih.bind_keeps fun d => (keeps_unary s symbol d).bind fun _ => keeps_pure _
  | binary symbol left right ihl ihr =>
    rw [Expr.evaluate]
    split
    · -- an operator that does not exist is refused before anything is assigned
      exact effects_throw _ _
    · exact ihl.bind fun l =>
        ihr.bind_keeps fun r => (keeps_binary s symbol l r).bind fun _ => keeps_pure _

end Run

/-- After the evaluation of any tree, whether or not it ends in a fault, the table is what the first few
of its assignments make of the table before, and all of them if there is no fault. So other names keep
their values, no name goes away or is moved, and the empty name is never bound. -/
theorem Expr.evaluate_makes (s : Settings) (e : Expr) (m : Machine) :
    ∃ made, made <+: e.assignments ∧
      Run.Makes s m.bindings made (e.evaluate s m).2.bindings ∧
      (∀ d, (e.evaluate s m).1 = .ok d → made = e.assignments) ∧
      (∀ x, x ∉ made.map Prod.fst →
        (e.evaluate s m).2.bindings.get? x = m.bindings.get? x) ∧
      m.bindings.names <+: (e.evaluate s m).2.bindings.names ∧
      "" ∉ (e.evaluate s m).2.bindings.names := by
  obtain ⟨made, hprefix, hmakes, hall⟩ := Run.effects_evaluate s e m
  exact ⟨made, hprefix, hmakes, hall, fun x hx => hmakes.get?_eq hx, hmakes.names_prefix,
    (e.evaluate s m).2.bindings.named⟩

/-- A right operand sees what the left one has assigned. -/
theorem Expr.evaluate_makes_sum :
    Run.Makes .default .empty [("x", .literal (.value (.int 2))), ("y", .ref "x")]
      ((Expr.binary "+" (.assign "x" (.literal (.value (.int 2))))
        (.assign "y" (.ref "x"))).evaluate .default .new).2.bindings := by
  obtain ⟨made, -, hmakes, hall, -⟩ :=
    Expr.evaluate_makes .default (.binary "+" (.assign "x" (.literal (.value (.int 2))))
      (.assign "y" (.ref "x"))) .new
  obtain rfl := hall (.value (.int 4)) (by decide +kernel)
  exact hmakes

/-- The empty name is refused, but what has been assigned before it is left. -/
example :
    ((Expr.binary "+" (.assign "x" (.literal (.value (.int 2))))
      (.assign "" (.assign "y" (.ref "x")))).evaluate .default .new).2.bindings.entries =
        [("x", .int 2), ("y", .int 2)] := by
  decide +kernel

end VectorCalc
