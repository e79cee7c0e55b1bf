import VectorCalc.Proofs.Expr.Normal
import VectorCalc.Proofs.Machine.Printed

/-!
# What a session can hold

A session that begins without bindings never binds a vector: what is assigned is a number or the value
of a name, and no name has a vector before. So names stand for integers only, and the vectors of a
session come from literals, which have two items at least, through operators that keep the number of
items or give an integer.

The lemmas go from operators and trees (`Expr.isProper_evaluate`) to one line, which either keeps the
bindings or binds a name (`Machine.ends_evaluateLine`), and from there by induction to sessions.
-/

namespace VectorCalc

open Token

/-! ## Vectors of two items or more -/

/-- An integer, or a vector of two items at least. -/
def Value.IsProper : Value → Prop
  | .int _ => True
  | .vector v => 2 ≤ v.length

/-- Nothing is lost when such a value is printed. -/
theorem Value.collapsed_of_isProper {v : Value} (h : v.IsProper) : v.collapsed = v := by
  cases v with
  | int n => rfl
  | vector v =>
    obtain ⟨items, hne⟩ := v
    cases items with
    | nil => exact absurd rfl hne
    | cons n ns =>
      cases ns with
      | nil => exact absurd h (Nat.not_succ_le_self 1)
      | cons m ns => rfl

theorem BinaryOp.isProper_apply {w : Width} {op : BinaryOp} {left right v : Value}
    (hl : left.IsProper) (h : op.apply w left right = .ok v) : v.IsProper := by
  cases left with
  | int x =>
    cases right with
    | int y =>
      obtain ⟨-, -, h⟩ := bind_eq_ok_iff.1 h
      obtain ⟨-, -, h⟩ := bind_eq_ok_iff.1 h
      cases h
      trivial
    | vector t => cases h
  | vector u =>
    cases right with
    | int y => cases h
    | vector t =>
      unfold apply applyWith at h
      dsimp only at h
      split_ifs at h with hlength
      · cases h
      obtain ⟨-, -, h⟩ := bind_eq_ok_iff.1 h
      obtain ⟨-, -, h⟩ := bind_eq_ok_iff.1 h
      cases h
      -- the vectors are of one length, so no item is cut off
      show 2 ≤ (u.toList.zipWith (op.combine w) t.toList).length
      have hu : 2 ≤ u.length := hl
      simp only [List.length_zipWith, Items.length_toList]
      omega

theorem UnaryOp.isProper_apply {w : Width} {op : UnaryOp} {u v : Value} (hu : u.IsProper)
    (h : op.apply w u = .ok v) : v.IsProper := by
  cases u with
  | int n =>
    cases h
    trivial
  | vector u =>
    obtain ⟨-, -, h⟩ := bind_eq_ok_iff.1 h
    cases h
    have hlength : 2 ≤ u.length := hu
    cases op with
    | sum => trivial
    | product => trivial
    | sumScan =>
      show 2 ≤ (u.scan _).length
      rw [Items.length_scan]
      exact hlength
    | productScan =>
      show 2 ≤ (u.scan _).length
      rw [Items.length_scan]
      exact hlength

/-! ## Names that stand for integers -/

/-- Every bound name is spelled as a name and stands for an integer. -/
def Bindings.IsScalar (b : Bindings) : Prop := ∀ e ∈ b.entries, IsName e.1 ∧ ∃ n, e.2 = .int n

theorem Bindings.IsScalar.get? {b : Bindings} (hb : b.IsScalar) {x : String} {v : Value}
    (h : b.get? x = some v) : ∃ n, v = .int n := by
  exact (hb (x, v) (Bindings.get?_eq_some_iff.1 h)).2

theorem Bindings.IsScalar.bound {b b' : Bindings} (hb : b.IsScalar) {x : String} {v : Value}
    (hx : IsName x) (hv : ∃ n, v = .int n) (h : b'.entries = b.boundEntries x v) :
    b'.IsScalar := by
  intro e he
  rw [h] at he
  unfold boundEntries at he
  split_ifs at he with hmem
  · obtain ⟨e', he', rfl⟩ := List.mem_map.1 he
    split_ifs
    · exact ⟨hx, hv⟩
    · exact hb e' he'
  · rcases List.mem_append.1 he with he | he
    · exact hb e he
    · rw [List.mem_singleton.1 he]
      exact ⟨hx, hv⟩

/-! ## Computations that end in a result -/

namespace Run

variable {α β : Type} {s : Settings} {symbol : String} {m m' : Machine} {v : Value}

/-- Two computations in sequence end in a result if both do. -/
theorem exists_of_bind {x : Run α} {k : α → Run β} {b : β} (h : (x >>= k) m = (.ok b, m')) :
    ∃ a m₁, x m = (.ok a, m₁) ∧ k a m₁ = (.ok b, m') := by
  rw [Reader.run_bind] at h
  rcases hx : x m with ⟨f | a, m₁⟩
  · rw [hx] at h
    cases h
  · rw [hx] at h
    exact ⟨a, m₁, rfl, h⟩

/-- An operator that gives a result has been applied to a value. -/
theorem exists_of_unary {d : Datum} (h : unary s symbol d m = (.ok v, m')) :
    ∃ op u, d = .value u ∧ UnaryOp.apply s.width op u = .ok v := by
  rw [unary_eq] at h
  cases hop : UnaryOp.ofSymbol? symbol with
  | none =>
    rw [hop] at h
    cases h
  | some op =>
    rw [hop] at h
    obtain ⟨_, m₁, -, h⟩ := exists_of_bind h
    cases d with
    | value u => exact ⟨op, u, rfl, congrArg Prod.fst h⟩
    | foreign host => cases h

theorem exists_of_binary {l r : Datum} (h : binary s symbol l r m = (.ok v, m')) :
    ∃ op u t, l = .value u ∧ r = .value t ∧ BinaryOp.apply s.width op u t = .ok v := by
  rw [binary_eq] at h
  cases hop : BinaryOp.ofSymbol? symbol with
  | none =>
    rw [hop] at h
    cases h
  | some op =>
    rw [hop] at h
    obtain ⟨_, m₁, -, h⟩ := exists_of_bind h
    cases l with
    | foreign host => cases h
    | value u =>
      cases r with
      | foreign host => cases h
      | value t => exact ⟨op, u, t, rfl, rfl, congrArg Prod.fst h⟩

end Run

/-! ## Trees -/

/-- Where names stand for integers, a tree of a chain does not give a vector of one item. -/
theorem Expr.isProper_evaluate {s : Settings} {bound : String → Bool} {e : Expr}
    (he : NormalChain bound e) {m m' : Machine} (hm : m.bindings.IsScalar) {d : Datum}
    (h : e.evaluate s m = (.ok d, m')) : ∃ v, d = .value v ∧ v.IsProper := by
  induction he generalizing m m' d with
  | int n =>
    cases h
    exact ⟨.int n, rfl, trivial⟩
  | vector hlength =>
    cases h
    exact ⟨_, rfl, hlength⟩
  | @ref x _ _ =>
    have hlookup : (m.bindings.lookup (.text x)).map Datum.value = .ok d := congrArg Prod.fst h
    rw [Bindings.lookup_text] at hlookup
    cases hget : m.bindings.get? x with
    | none =>
      rw [hget] at hlookup
      cases hlookup
    | some v =>
      rw [hget] at hlookup
      cases hlookup
      obtain ⟨n, rfl⟩ := hm.get? hget
      exact ⟨.int n, rfl, trivial⟩
  | unary hop _ ih =>
    obtain ⟨op, hop⟩ := Option.isSome_iff_exists.1 hop
    rw [evaluate, hop] at h
    obtain ⟨d, m₁, hoperand, h⟩ := Run.exists_of_bind h
    obtain ⟨v, m₂, hv, h⟩ := Run.exists_of_bind h
    cases h
    obtain ⟨op', u, rfl, happly⟩ := Run.exists_of_unary hv
    obtain ⟨u', hu', hproper⟩ := ih hm hoperand
    cases hu'
    exact ⟨v, rfl, op'.isProper_apply hproper happly⟩
  | binary hop _ _ _ ihl _ =>
    obtain ⟨op, hop⟩ := Option.isSome_iff_exists.1 hop
    rw [evaluate, hop] at h
    obtain ⟨l, m₁, hleft, h⟩ := Run.exists_of_bind h
    obtain ⟨r, m₂, -, h⟩ := Run.exists_of_bind h
    obtain ⟨v, m₃, hv, h⟩ := Run.exists_of_bind h
    cases h
    obtain ⟨op', u, t, rfl, -, happly⟩ := Run.exists_of_binary hv
    obtain ⟨u', hu', hproper⟩ := ihl hm hleft
    cases hu'
    -- the right operand has as many items as the left one
    exact ⟨v, rfl, op'.isProper_apply hproper happly⟩

/-! ## Lines -/

/-- The name that a line binds, if it is an assignment that gives a value. -/
def Machine.bound? (s : Settings) (source : String) (m : Machine) : Option String :=
  match (m.evaluateLine s source).1 with
  | .error _ => none
  | .ok _ =>
    match Expr.parse s m.bindings source with
    | .ok (.assign x _) => some x
    | _ => none

/-- How a line can end: with a fault, with the value of a chain, or with what it has assigned to a name.
Only an assignment changes the bindings. -/
inductive Machine.Ends (s : Settings) (source : String) (m : Machine) :
    Except Fault Value × Machine → Prop where
  | failed (f : Fault) {m' : Machine} (hm' : m'.bindings = m.bindings) :
    Ends s source m (.error f, m')
  | value {e : Expr} {v : Value} {m' : Machine} (hparse : Expr.parse s m.bindings source = .ok e)
    (he : Expr.NormalChain m.bindings.contains e) (hv : e.evaluate s m = (.ok (.value v), m'))
    (hm' : m'.bindings = m.bindings) : Ends s source m (.ok v, m')
  | assigned {x : String} {r : Expr} {v : Value} {m' : Machine}
    (hparse : Expr.parse s m.bindings source = .ok (.assign x r)) (hx : IsName x)
    (hv : (∃ n, v = .int n) ∨ ∃ y, m.bindings.get? y = some v)
    (hm' : m'.bindings.entries = m.bindings.boundEntries x v) : Ends s source m (.ok v, m')

namespace Machine

open Expr.Grammar

variable {s : Settings} {source : String} {m m' : Machine} {v : Value}

theorem ends_evaluateLine (s : Settings) (source : String) (m : Machine) :
    Ends s source m (m.evaluateLine s source) := by
  rcases Run.parse_cases s source m with ⟨e, hparse, hrun⟩ | ⟨f, m', -, hrun, hm'⟩
  · cases Expr.line_of_parse hparse with
    | chain hgap hchain hend =>
      have hnormal := hchain.normal fun t ht => named_tokenize source t (hgap.suffix.mem ht)
      have hkeeps := bindings_of_parse hrun hchain.not_assigns
      rcases hvalue : e.evaluate s m with ⟨f | d, m'⟩
      · have hline : m.evaluateLine s source = (.error f, m') := by
          rw [evaluateLine_of_parse hrun]
          exact Reader.run_bind_of_error hvalue _
        rw [hline] at hkeeps ⊢
        exact .failed f hkeeps
      · have hline : m.evaluateLine s source = (d.expect "line result", m') := by
          rw [evaluateLine_of_parse hrun]
          exact Reader.run_bind_of_ok hvalue _
        rw [hline] at hkeeps ⊢
        cases d with
        | value v => exact .value hparse hnormal hvalue hkeeps
        | foreign host => exact .failed _ hkeeps
    | @assign x _ _ _ _ _ _ r hgap hx hgap' ha hgap'' hr hend =>
      have hname := named_tokenize source x (hgap.suffix.mem List.mem_cons_self) hx
      rcases evaluateLine_of_assign hrun hr with ⟨f, hf⟩ | ⟨v, m', hv, hwritten, hentries⟩
      · rw [hf]
        exact .failed f rfl
      · rw [hv]
        refine .assigned hparse hname ?_ hentries
        rcases hwritten with ⟨n, -, hn⟩ | ⟨y, -, hy⟩
        · exact .inl ⟨n, hn⟩
        · exact .inr ⟨y, hy⟩
  · have hline : m.evaluateLine s source = (.error f, m') := Reader.run_bind_of_error hrun _
    rw [hline]
    exact .failed f hm'

/-- Where names stand for integers, they do so behind the next line. -/
theorem isScalar_evaluateLine (hm : m.bindings.IsScalar) :
    (m.evaluateLine s source).2.bindings.IsScalar := by
  have hends := ends_evaluateLine s source m
  generalize m.evaluateLine s source = step at hends
  cases hends with
  | failed f hm' => exact hm' ▸ hm
  | value _ _ _ hm' => exact hm' ▸ hm
  | assigned _ hx hv hm' =>
    refine hm.bound hx ?_ hm'
    rcases hv with hv | ⟨y, hy⟩
    · exact hv
    · exact hm.get? hy

/-- Where names stand for integers, no line gives a vector of one item. -/
theorem isProper_evaluateLine (hm : m.bindings.IsScalar)
    (h : (m.evaluateLine s source).1 = .ok v) : v.IsProper := by
  have hends := ends_evaluateLine s source m
  generalize m.evaluateLine s source = step at hends h
  cases hends with
  | failed f => cases h
  | value _ he hv =>
    cases h
    obtain ⟨v', hv', hproper⟩ := Expr.isProper_evaluate he hm hv
    cases hv'
    exact hproper
  | assigned _ _ hv =>
    cases h
    obtain ⟨n, rfl⟩ : ∃ n, v = .int n := by
      rcases hv with hv | ⟨y, hy⟩
      · exact hv
      · exact hm.get? hy
    trivial

/-- A line appends the name that it binds, unless that is bound before. -/
theorem names_evaluateLine (s : Settings) (source : String) (m : Machine) :
    (m.evaluateLine s source).2.bindings.names =
      match m.bound? s source with
      | some x => if x ∈ m.bindings.names then m.bindings.names else m.bindings.names ++ [x]
      | none => m.bindings.names := by
  have hends := ends_evaluateLine s source m
  unfold bound?
  generalize m.evaluateLine s source = step at hends
  cases hends with
  | failed f hm' => exact congrArg Bindings.names hm'
  | value hparse he _ hm' =>
    rw [hparse]
    cases he <;> exact congrArg Bindings.names hm'
  | @assigned x r v m' hparse hx hv hm' =>
    rw [hparse]
    show m'.bindings.entries.map Prod.fst = _
    rw [hm']
    exact Bindings.names_boundEntries _ _ _

/-- A value that is no vector of one item is read back from its text. -/
theorem evaluateLine_of_isProper (hcap : (s.capacity : Int) ≤ Cursor.capacityLimit)
    (hv : v.IsProper) (m : Machine) : m.evaluateLine s v.text = (.ok v, m) := by
  have hparse := Expr.parse_text (Cursor.ofText?_of_le v.text s.capacity_pos hcap) m.bindings
  rw [Value.collapsed_of_isProper hv] at hparse
  rw [evaluateLine_of_parse (Run.parse_of_ok hparse)]
  rfl

/-- A line gives a value only if cursors are granted. -/
theorem capacity_of_evaluateLine (h : (m.evaluateLine s source).1 = .ok v) :
    (s.capacity : Int) ≤ Cursor.capacityLimit := by
  rcases Run.parse_cases s source m with ⟨e, hparse, -⟩ | ⟨f, m', -, hrun, -⟩
  · obtain ⟨c, hc⟩ := Expr.exists_cursor hparse
    exact Expr.le_capacityLimit hc
  · have hline : m.evaluateLine s source = (.error f, m') := Reader.run_bind_of_error hrun _
    rw [hline] at h
    cases h

/-! ## Sessions -/

/-- The machine behind lines that are evaluated one after the other. -/
def after (s : Settings) (lines : List String) (m : Machine) : Machine :=
  lines.foldl (fun m line => (m.evaluateLine s line).2) m

/-- The names that lines bind one after the other, each as often as it is bound. -/
def assigned (s : Settings) : List String → Machine → List String
  | [], _ => []
  | line :: lines, m => (m.bound? s line).toList ++ assigned s lines (m.evaluateLine s line).2

theorem after_append (s : Settings) (lines more : List String) (m : Machine) :
    m.after s (lines ++ more) = (m.after s lines).after s more :=
  List.foldl_append

theorem assigned_append (s : Settings) (lines more : List String) (m : Machine) :
    m.assigned s (lines ++ more) = m.assigned s lines ++ (m.after s lines).assigned s more := by
  induction lines generalizing m with
  | nil => rfl
  | cons line lines ih =>
    rw [List.cons_append, assigned, ih, assigned, List.append_assoc]
    rfl

theorem isScalar_after (hm : m.bindings.IsScalar) (lines : List String) :
    (m.after s lines).bindings.IsScalar := by
  induction lines generalizing m with
  | nil => exact hm
  | cons line lines ih => exact ih (isScalar_evaluateLine hm)

/-- No name is removed, and none changes its place. -/
theorem names_prefix_after (s : Settings) (lines : List String) (m : Machine) :
    m.bindings.names <+: (m.after s lines).bindings.names := by
  induction lines generalizing m with
  | nil => exact List.prefix_rfl
  | cons line lines ih =>
    refine List.IsPrefix.trans ?_ (ih (m.evaluateLine s line).2)
    rw [names_evaluateLine]
    split
    · split_ifs
      · exact List.prefix_rfl
      · exact List.prefix_append _ _
    · exact List.prefix_rfl

/-- The names of a session are in the order in which they were first bound. -/
theorem names_after_new (s : Settings) (lines : List String) :
    (new.after s lines).bindings.names = (new.assigned s lines).eraseDups := by
  -- the last line may bind a name again that an earlier line has bound
  induction lines using List.reverseRecOn with
  | nil => rfl
  | append_singleton lines line ih =>
    have hassigned : (new.after s lines).assigned s [line] =
        ((new.after s lines).bound? s line).toList := List.append_nil _
    have hmem : ∀ x, x ∈ (new.after s lines).bindings.names ↔ x ∈ new.assigned s lines := by
      intro x
      rw [ih, List.mem_eraseDups]
    rw [after_append, assigned_append, hassigned, List.eraseDups_append, ← ih]
    show ((new.after s lines).evaluateLine s line).2.bindings.names = _
    rw [names_evaluateLine]
    cases (new.after s lines).bound? s line with
    | none => simp [List.removeAll]
    | some x =>
      by_cases hx : x ∈ new.assigned s lines
      · simp [List.removeAll, hmem, hx]
      · simp [List.removeAll, hmem, hx, List.eraseDups_cons]

/-- A session that begins without bindings binds integers to names, in the order in which the names
were first bound, and never loses one. It gives no vector of one item, so each of its results is read
back from its text, whatever has been bound meanwhile. -/
theorem after_new_holds (s : Settings) (lines : List String) :
    (∀ e ∈ (new.after s lines).bindings.entries, IsName e.1 ∧ ∃ n, e.2 = .int n) ∧
    (new.after s lines).bindings.names.Nodup ∧
    (new.after s lines).bindings.names = (new.assigned s lines).eraseDups ∧
    (∀ more, (new.after s lines).bindings.names <+: (new.after s (lines ++ more)).bindings.names) ∧
    ∀ line v, ((new.after s lines).evaluateLine s line).1 = .ok v →
      (∀ items, v = .vector items → 2 ≤ items.length) ∧
      ∀ m : Machine, m.evaluateLine s v.text = (.ok v, m) := by
  have hnew : new.bindings.IsScalar := by
    intro e he
    cases he
  have hscalar : (new.after s lines).bindings.IsScalar := isScalar_after hnew lines
  refine ⟨hscalar, Bindings.distinct _, names_after_new s lines, fun more => ?_, fun line v hv => ?_⟩
  · rw [after_append]
    exact names_prefix_after s more _
  · have hproper := isProper_evaluateLine hscalar hv
    refine ⟨fun items hitems => ?_, evaluateLine_of_isProper (capacity_of_evaluateLine hv) hproper⟩
    rw [hitems] at hproper
    exact hproper

/-- A name that is bound again keeps its place, and a scan gives a vector that is read back. -/
theorem after_new_scan :
    (new.after .default ["y = 3", "x = -4", "y = x", "y = z"]).bindings.names = ["y", "x"] ∧
      new.evaluateLine .default "1 -1 2" =
        (.ok (.vector ⟨[1, -1, 2], List.cons_ne_nil _ _⟩), .new) := by
  have hline : ((new.after .default ["y = 3", "x = -4", "y = x", "y = z"]).evaluateLine .default
      "+\\ 1 -2 3").1 = .ok (.vector ⟨[1, -1, 2], List.cons_ne_nil _ _⟩) := by
    decide +kernel
  have hassigned : (new.assigned .default ["y = 3", "x = -4", "y = x", "y = z"]).eraseDups =
      ["y", "x"] := by
    decide +kernel
  obtain ⟨-, -, hnames, -, hresults⟩ :=
    after_new_holds .default ["y = 3", "x = -4", "y = x", "y = z"]
  exact ⟨hnames.trans hassigned, (hresults _ _ hline).2 new⟩

end Machine

end VectorCalc
