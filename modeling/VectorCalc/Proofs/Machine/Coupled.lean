import VectorCalc.Proofs.Value.Related

/-!
# Machines that run in step

Two machines are in step when their tables bind the same names in the same order to related values.
The parser looks at names only, so it gives both the same tree; and evaluation looks at values through
the operators only. So where operators give related results for related operands (`Settings.Tracks`), a
line takes two machines in step to machines in step, with related values or with one and the same fault,
unless the fault of the first one is excused: operators at different widths give the same but for an
operand that is refused for its size.

`Run.Coupled` says this of two computations. It goes through sequences, and each step of the evaluation
has its lemma.
-/

namespace VectorCalc

variable {R : Int64 → Int64 → Prop}

/-! ## Tables -/

/-- Entries of one name with related values. -/
def RelatedEntry (R : Int64 → Int64 → Prop) (e e' : String × Value) : Prop :=
  e.1 = e'.1 ∧ e.2.Related R e'.2

/-- The same names in the same order, with related values. -/
def Bindings.Related (R : Int64 → Int64 → Prop) (b b' : Bindings) : Prop :=
  List.Forall₂ (RelatedEntry R) b.entries b'.entries

namespace Bindings

variable {b b' : Bindings} {es es' : List (String × Value)} {name : String} {v v' : Value}

theorem Related.refl (h : ∀ n, R n n) (b : Bindings) : b.Related R b :=
  List.forall₂_same.2 fun e _ => ⟨rfl, .refl h e.2⟩

theorem related_names (h : List.Forall₂ (RelatedEntry R) es es') :
    es.map Prod.fst = es'.map Prod.fst := by
  induction h with
  | nil => rfl
  | cons he _ ih => rw [List.map_cons, List.map_cons, he.1, ih]

theorem Related.contains_eq (h : b.Related R b') : b.contains = b'.contains := by
  funext name
  show (b.entries.map Prod.fst).contains name = (b'.entries.map Prod.fst).contains name
  rw [related_names h]

theorem related_lookup (name : String) (h : List.Forall₂ (RelatedEntry R) es es') :
    Option.Rel (Value.Related R) (es.lookup name) (es'.lookup name) := by
  induction h with
  | nil => exact .none
  | @cons e e' _ _ he _ ih =>
    rw [List.lookup_cons, List.lookup_cons, ← he.1]
    cases name == e.1 with
    | true => exact .some he.2
    | false => exact ih

theorem related_put (hv : v.Related R v') (h : List.Forall₂ (RelatedEntry R) es es') :
    List.Forall₂ (RelatedEntry R) (put name v es) (put name v' es') := by
  induction h with
  | nil => exact .cons ⟨rfl, hv⟩ .nil
  | cons he hes ih =>
    rw [put, put, ← he.1]
    split_ifs
    · exact .cons ⟨rfl, hv⟩ hes
    · exact .cons he ih

end Bindings

/-! ## Computations -/

/-- Related values, or the same datum of a host. -/
inductive Datum.Related (R : Int64 → Int64 → Prop) : Datum → Datum → Prop where
  | value {v v' : Value} (h : v.Related R v') : Related R (.value v) (.value v')
  | foreign (h : Host) : Related R (.foreign h) (.foreign h)

theorem Datum.Related.refl (h : ∀ n, R n n) (d : Datum) : d.Related R d := by
  cases d with
  | value v => exact .value (.refl h v)
  | foreign host => exact .foreign host

namespace Run

variable {α β γ δ : Type} {E : Fault → Prop} {V : α → β → Prop} {W : γ → δ → Prop}

/-- What two computations end in: results related by `V` or the same fault, with related tables, or a
fault of the first one that is excused. -/
inductive InStep (R : Int64 → Int64 → Prop) (E : Fault → Prop) (V : α → β → Prop) :
    Except Fault α × Machine → Except Fault β × Machine → Prop where
  | ok {a : α} {b : β} {m m' : Machine} (h : V a b) (hm : m.bindings.Related R m'.bindings) :
    InStep R E V (.ok a, m) (.ok b, m')
  | same (f : Fault) {m m' : Machine} (hm : m.bindings.Related R m'.bindings) :
    InStep R E V (.error f, m) (.error f, m')
  | excused {f : Fault} (h : E f) (m : Machine) (end' : Except Fault β × Machine) :
    InStep R E V (.error f, m) end'

theorem InStep.follows {r : Except Fault α × Machine} {r' : Except Fault β × Machine}
    (h : InStep R E V r r') : Follows E V r.1 r'.1 := by
  cases h with
  | ok h => exact .ok h
  | same f => exact .same f
  | excused h => exact .excused h _

/-- Run on related tables, the computations end in step. -/
def Coupled (R : Int64 → Int64 → Prop) (E : Fault → Prop) (V : α → β → Prop) (x : Run α)
    (y : Run β) : Prop :=
  ∀ m m', m.bindings.Related R m'.bindings → InStep R E V (x m) (y m')

theorem coupled_pure {a : α} {b : β} (h : V a b) : Coupled R E V (pure a : Run α) (pure b) :=
  fun _ _ hm => .ok h hm

theorem coupled_throw (f : Fault) : Coupled R E V (throw f : Run α) (throw f) :=
  fun _ _ hm => .same f hm

theorem coupled_lift {o : Except Fault α} {o' : Except Fault β} (h : Follows E V o o') :
    Coupled R E V (lift o) (lift o') := by
  intro m m' hm
  cases h with
  | ok h => exact .ok h hm
  | same f => exact .same f hm
  | excused h => exact .excused h m _

theorem Coupled.bind {x : Run α} {y : Run β} {k : α → Run γ} {k' : β → Run δ}
    (hx : Coupled R E V x y) (hk : ∀ a b, V a b → Coupled R E W (k a) (k' b)) :
    Coupled R E W (x >>= k) (y >>= k') := by
  intro m m' hm
  have hend := hx m m' hm
  rw [Token.Reader.run_bind, Token.Reader.run_bind]
  generalize x m = r at hend
  generalize y m' = r' at hend
  cases hend with
  | ok h hm => exact hk _ _ h _ _ hm
  | same f hm => exact .same f hm
  | excused h => exact .excused h _ _

theorem coupled_prepare (s s' : Settings) (op : Operator) :
    Coupled R E (fun _ _ => True) (update (.prepare s op)) (update (.prepare s' op)) := by
  intro m m' hm
  rw [← bindings_prepare s op m, ← bindings_prepare s' op m'] at hm
  exact .ok trivial hm

/-! ### Names -/

theorem coupled_lookup (name : String) :
    Coupled R E (Datum.Related R) (lookup name) (lookup name) := by
  intro m m' hm
  have hget := Bindings.related_lookup name hm
  show InStep R E _ ((m.bindings.lookup (.text name)).map Datum.value, m)
    ((m'.bindings.lookup (.text name)).map Datum.value, m')
  rw [Bindings.lookup_text, Bindings.lookup_text, Bindings.get?, Bindings.get?]
  generalize m.bindings.entries.lookup name = v at hget
  generalize m'.bindings.entries.lookup name = v' at hget
  cases hget with
  | none => exact .same _ hm
  | some hv => exact .ok (.value hv) hm

/-- Binding a name to related values keeps tables related, and what is refused does not depend on the
table. -/
theorem follows_bind (name : String) {d d' : Datum} (hd : d.Related R d') {m m' : Machine}
    (hm : m.bindings.Related R m'.bindings) :
    Follows E (Bindings.Related R) (m.bindings.bind (.text name) d)
      (m'.bindings.bind (.text name) d') := by
  cases hd with
  | value hv =>
    rw [Bindings.bind_value, Bindings.bind_value]
    split_ifs
    · exact .same _
    · exact .ok (Bindings.related_put hv hm)
  | foreign h =>
    unfold Bindings.bind
    dsimp only
    split_ifs
    · exact .same _
    · exact .same _

theorem coupled_assign (name : String) {d d' : Datum} (hd : d.Related R d') :
    Coupled R E (Datum.Related R) (assign name d) (assign name d') := by
  intro m m' hm
  have hbind := follows_bind (E := E) name hd hm
  generalize ho : m.bindings.bind (.text name) d = o at hbind
  generalize ho' : m'.bindings.bind (.text name) d' = o' at hbind
  cases hbind with
  | ok hb =>
    obtain ⟨m₁, hrun, rfl⟩ := assign_of_ok ho
    obtain ⟨m₁', hrun', rfl⟩ := assign_of_ok ho'
    rw [hrun, hrun']
    exact .ok hd hb
  | same f =>
    rw [assign_of_error ho, assign_of_error ho']
    exact .same f hm
  | excused h =>
    rw [assign_of_error ho]
    exact .excused h m _

end Run

/-! ## Operators -/

/-- Under the settings `s` operators give what they give under `s'` for related operands, unless a fault
is excused; of the binary operators only those of `A` are looked at. Cursors have the same capacity. -/
structure Settings.Tracks (s s' : Settings) (R : Int64 → Int64 → Prop) (E : Fault → Prop)
    (A : BinaryOp → Prop) : Prop where
  refl (n : Int64) : R n n
  unary (op : UnaryOp) {v v' : Value} (h : v.Related R v') :
    Follows E (Value.Related R) (op.apply s.width v) (op.apply s'.width v')
  binary {op : BinaryOp} (hop : A op) {l l' r r' : Value} (hl : l.Related R l')
    (hr : r.Related R r') :
    Follows E (Value.Related R) (op.apply s.width l r) (op.apply s'.width l' r')
  capacity : s'.capacity = s.capacity

variable {s s' : Settings} {A : BinaryOp → Prop} {E : Fault → Prop} {symbol : String}

/-- Operators at a narrow width give what they give at 64 bits, unless an operand is refused. -/
theorem Settings.tracks_of_widens (hs : s.width.Widens R A) (hs' : s'.width = .bits64)
    (hc : s'.capacity = s.capacity) : s.Tracks s' R s.width.Rejects A where
  refl := hs.refl
  unary op _ _ h := by
    rw [hs']
    exact op.follows_apply hs h
  binary hop _ _ _ _ hl hr := by
    rw [hs']
    exact BinaryOp.follows_apply hs hop hl hr
  capacity := hc

namespace Run

theorem coupled_unary (hs : s.Tracks s' R E A) {d d' : Datum} (hd : d.Related R d') :
    Coupled R E (Value.Related R) (unary s symbol d) (unary s' symbol d') := by
  rw [unary_eq, unary_eq]
  split
  · exact coupled_throw _
  · next op hop =>
    refine (coupled_prepare s s' _).bind fun _ _ _ => coupled_lift ?_
    cases hd with
    | value hv => exact hs.unary op hv
    | foreign h => exact .same _

theorem coupled_binary (hs : s.Tracks s' R E A)
    (hA : ∀ op, BinaryOp.ofSymbol? symbol = some op → A op) {l l' r r' : Datum}
    (hl : l.Related R l') (hr : r.Related R r') :
    Coupled R E (Value.Related R) (binary s symbol l r) (binary s' symbol l' r') := by
  rw [binary_eq, binary_eq]
  split
  · exact coupled_throw _
  · next op hop =>
    refine (coupled_prepare s s' _).bind fun _ _ _ => coupled_lift ?_
    cases hl with
    | foreign h => exact .same _
    | value hl =>
      cases hr with
      | foreign h => exact .same _
      | value hr => exact hs.binary (hA op hop) hl hr

end Run

/-! ## Trees -/

/-- The binary operators of the tree are among those of `A`. -/
def Expr.UsesOnly (A : BinaryOp → Prop) : Expr → Prop
  | .assign _ value => value.UsesOnly A
  | .unary _ operand => operand.UsesOnly A
  | .binary symbol left right =>
    (∀ op, BinaryOp.ofSymbol? symbol = some op → A op) ∧ left.UsesOnly A ∧ right.UsesOnly A
  | .literal _ | .ref _ | .foreign _ => True

theorem Expr.usesOnly_true (e : Expr) : e.UsesOnly fun _ => True := by
  induction e with
  | literal => trivial
  | ref => trivial
  | foreign => trivial
  | assign _ _ ih => exact ih
  | unary _ _ ih => exact ih
  | binary _ _ _ ihl ihr => exact ⟨fun _ _ => trivial, ihl, ihr⟩

/-- Evaluation gives related data, by induction on the tree. -/
theorem Expr.coupled_evaluate (hs : s.Tracks s' R E A) {e : Expr} (he : e.UsesOnly A) :
    Run.Coupled R E (Datum.Related R) (e.evaluate s) (e.evaluate s') := by
  induction e with
  | literal d => exact Run.coupled_pure (.refl hs.refl d)
  | ref name => exact Run.coupled_lookup name
  | foreign kind => exact Run.coupled_throw _
  | assign name value ih => exact (ih he).bind fun _ _ hd => Run.coupled_assign name hd
  | unary symbol operand ih =>
    rw [evaluate, evaluate]
    split
    · exact Run.coupled_throw _
    · refine (ih he).bind fun d d' hd => ?_
      exact (Run.coupled_unary hs hd).bind fun _ _ hv => Run.coupled_pure (.value hv)
  | binary symbol left right ihl ihr =>
    obtain ⟨hA, hleft, hright⟩ := he
    rw [evaluate, evaluate]
    split
    · exact Run.coupled_throw _
    · refine (ihl hleft).bind fun l l' hl => (ihr hright).bind fun r r' hr => ?_
      exact (Run.coupled_binary hs hA hl hr).bind fun _ _ hv => Run.coupled_pure (.value hv)

/-! ## Lines -/

/-- The parser gives the same tree, or the same fault, for tables with the same names. -/
theorem Run.coupled_parse (hc : s'.capacity = s.capacity) (source : String) :
    Coupled R E (fun e e' => e = e' ∧ ∃ b, Expr.parse s b source = .ok e) (parse s source)
      (parse s' source) := by
  intro m m' hm
  have hparse : Expr.parse s' m'.bindings source = Expr.parse s m.bindings source := by
    unfold Expr.parse
    rw [hc, hm.contains_eq]
  rcases parse_cases s source m with ⟨e, he, hrun⟩ | ⟨f, m₁, hf, hrun, hm₁⟩
  · rcases parse_cases s' source m' with ⟨e', he', hrun'⟩ | ⟨f', m₁', hf', -, -⟩
    · cases (he.symm.trans hparse.symm).trans he'
      rw [hrun, hrun']
      exact .ok ⟨rfl, _, he⟩ hm
    · cases (he.symm.trans hparse.symm).trans hf'
  · rcases parse_cases s' source m' with ⟨e', he', -⟩ | ⟨f', m₁', hf', hrun', hm₁'⟩
    · cases (hf.symm.trans hparse.symm).trans he'
    · cases (hf.symm.trans hparse.symm).trans hf'
      rw [hrun, hrun']
      rw [← hm₁, ← hm₁'] at hm
      exact .same f hm

/-- What a line gives on machines in step. -/
theorem Run.coupled_line (hs : s.Tracks s' R E A) {source : String}
    (hA : ∀ b e, Expr.parse s b source = .ok e → e.UsesOnly A) :
    Coupled R E (Value.Related R) (line s source) (line s' source) := by
  unfold line
  refine (coupled_parse hs.capacity source).bind fun e e' ⟨he, b, hparse⟩ => ?_
  cases he
  refine (Expr.coupled_evaluate hs (hA b e hparse)).bind fun d d' hd => coupled_lift ?_
  cases hd with
  | value hv => exact .ok hv
  | foreign h => exact .same _

/-- A line takes machines in step to machines in step, also at another width. -/
theorem Machine.inStep_evaluateLine (hs : s.width.Widens R A) (hs' : s'.width = .bits64)
    (hc : s'.capacity = s.capacity) (source : String)
    (hA : ∀ b e, Expr.parse s b source = .ok e → e.UsesOnly A) {m m' : Machine}
    (hm : m.bindings.Related R m'.bindings) :
    Run.InStep R s.width.Rejects (Value.Related R) (m.evaluateLine s source)
      (m'.evaluateLine s' source) :=
  Run.coupled_line (Settings.tracks_of_widens hs hs' hc) hA m m' hm

end VectorCalc
