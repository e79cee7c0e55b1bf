import Mathlib
import VectorCalc.Proofs.Bindings
import VectorCalc.Proofs.Expr.Recognition
import VectorCalc.Proofs.Machine.Kernels

/-!
# Lines are atomic

A line either changes no binding or binds the one name that it assigns to. A fault may come from
reading the line, from its operators or from a name; the one step that binds a name is the last one of
an assignment, and what is assigned is a number or the value of a name, so no fault comes after it.

`Run.Keeps` says that a computation leaves the bindings as they are. It holds of the evaluation of
every tree without an assignment, and the parser gives no other tree but an assignment of a number or
a name.
-/

namespace VectorCalc

/-- An assignment occurs in the tree. -/
def Expr.assigns : Expr → Bool
  | .assign _ _ => true
  | .unary _ operand => operand.assigns
  | .binary _ left right => left.assigns || right.assigns
  | .literal _ | .ref _ | .foreign _ => false

/-! ## Computations that keep the bindings -/

namespace Run

variable {α β : Type}

/-- The computation leaves the bindings as they are, whether or not it ends in a fault. -/
def Keeps (x : Run α) : Prop := ∀ m, (x m).2.bindings = m.bindings

theorem keeps_pure (a : α) : Keeps (pure a : Run α) := fun _ => rfl

theorem keeps_throw (f : Fault) : Keeps (throw f : Run α) := fun _ => rfl

theorem keeps_lift (o : Except Fault α) : Keeps (lift o) := fun _ => rfl

theorem keeps_lookup (name : String) : Keeps (lookup name) := fun _ => rfl

theorem Keeps.bind {x : Run α} {k : α → Run β} (hx : Keeps x) (hk : ∀ a, Keeps (k a)) :
    Keeps (x >>= k) := by
  intro m
  have hm := hx m
  rw [Token.Reader.run_bind]
  rcases hrun : x m with ⟨f | a, m'⟩
  · rw [hrun] at hm
    exact hm
  · rw [hrun] at hm
    exact (hk a m').trans hm

theorem keeps_update {g : Machine → Machine} (h : ∀ m, (g m).bindings = m.bindings) :
    Keeps (update g) := h

theorem bindings_prepare (s : Settings) (op : Operator) (m : Machine) :
    (m.prepare s op).bindings = m.bindings := by
  unfold Machine.prepare
  split <;> rfl

theorem keeps_unary (s : Settings) (symbol : String) (operand : Datum) :
    Keeps (unary s symbol operand) := by
  rw [unary_eq]
  split
  · exact keeps_throw _
  · exact (keeps_update (bindings_prepare s _)).bind fun _ => keeps_lift _

theorem keeps_binary (s : Settings) (symbol : String) (left right : Datum) :
    Keeps (binary s symbol left right) := by
  rw [binary_eq]
  split
  · exact keeps_throw _
  · exact (keeps_update (bindings_prepare s _)).bind fun _ => keeps_lift _

/-- Only an assignment changes the bindings. -/
theorem keeps_evaluate (s : Settings) {e : Expr} (h : e.assigns = false) :
    Keeps (e.evaluate s) := by
  induction e with
  | literal d => exact keeps_pure d
  | ref name => exact keeps_lookup name
  | assign name value => cases h
  | foreign kind => exact keeps_throw _
  | unary symbol operand ih =>
    rw [Expr.evaluate]
    split
    · exact keeps_throw _
    · refine (ih h).bind fun d => ?_
      exact (keeps_unary s symbol d).bind fun _ => keeps_pure _
  | binary symbol left right ihl ihr =>
    rw [Expr.assigns, Bool.or_eq_false_iff] at h
    rw [Expr.evaluate]
    split
    · exact keeps_throw _
    · refine (ihl h.1).bind fun l => (ihr h.2).bind fun r => ?_
      exact (keeps_binary s symbol l r).bind fun _ => keeps_pure _

/-! ## Parsing -/

/-- Parsing gives the tree and changes nothing, or it ends in the fault and keeps the bindings. -/
theorem parse_cases (s : Settings) (source : String) (m : Machine) :
    (∃ e, Expr.parse s m.bindings source = .ok e ∧ parse s source m = (.ok e, m)) ∨
      ∃ f m', Expr.parse s m.bindings source = .error f ∧ parse s source m = (.error f, m') ∧
        m'.bindings = m.bindings := by
  have hget : (get : Run Machine) m = (.ok m, m) := rfl
  unfold parse
  rw [Token.Reader.run_bind_of_ok hget]
  cases hparse : Expr.parse s m.bindings source with
  | ok e => exact .inl ⟨e, rfl, rfl⟩
  | error f =>
    right
    -- a refused step back is noted in the log before the fault
    cases hrecord : Record.ofParseFault f with
    | none =>
      refine ⟨f, m, rfl, ?_, rfl⟩
      dsimp only
      rw [hrecord]
      rfl
    | some r =>
      refine ⟨f, m.note r, rfl, ?_, rfl⟩
      dsimp only
      rw [hrecord]
      rfl

/-- A line of which the tree is known is parsed without a trace. -/
theorem parse_of_ok {s : Settings} {source : String} {m : Machine} {e : Expr}
    (h : Expr.parse s m.bindings source = .ok e) : parse s source m = (.ok e, m) := by
  rcases parse_cases s source m with ⟨e', he', hrun⟩ | ⟨f, m', hf, -, -⟩
  · cases h.symm.trans he'
    exact hrun
  · cases h.symm.trans hf

/-! ## Assignments -/

/-- What is bound is passed on. -/
theorem assign_of_ok {name : String} {d : Datum} {m : Machine} {b : Bindings}
    (h : m.bindings.bind (.text name) d = .ok b) :
    ∃ m', assign name d m = (.ok d, m') ∧ m'.bindings = b := by
  have hget : (get : Run Machine) m = (.ok m, m) := rfl
  have hlift : lift (m.bindings.bind (.text name) d) m = (.ok b, m) := by
    rw [h]
    rfl
  unfold assign
  rw [Token.Reader.run_bind_of_ok hget, Token.Reader.run_bind_of_ok hlift]
  -- a value is noted in the log, and the datum of a host is not
  cases d with
  | value v => exact ⟨_, rfl, rfl⟩
  | foreign h => exact ⟨_, rfl, rfl⟩

/-- Nothing changes where a name cannot be bound. -/
theorem assign_of_error {name : String} {d : Datum} {m : Machine} {f : Fault}
    (h : m.bindings.bind (.text name) d = .error f) : assign name d m = (.error f, m) := by
  have hget : (get : Run Machine) m = (.ok m, m) := rfl
  have hlift : lift (m.bindings.bind (.text name) d) m = (.error f, m) := by
    rw [h]
    rfl
  unfold assign
  rw [Token.Reader.run_bind_of_ok hget, Token.Reader.run_bind_of_error hlift]

/-- A value is bound unless the name is empty; nothing is refused after that. -/
theorem assign_value (name : String) (v : Value) (m : Machine) :
    (name = "" ∧ ∃ f, assign name (.value v) m = (.error f, m)) ∨
      ∃ m', assign name (.value v) m = (.ok (.value v), m') ∧
        m'.bindings.entries = m.bindings.boundEntries name v := by
  have hbind := m.bindings.bind_value name v
  by_cases h : name = ""
  · rw [dif_pos h] at hbind
    exact .inl ⟨h, _, assign_of_error hbind⟩
  · rw [dif_neg h] at hbind
    obtain ⟨m', hrun, hm'⟩ := assign_of_ok hbind
    exact .inr ⟨m', hrun, hm' ▸ Bindings.entries_insert m.bindings h v⟩

/-- What is assigned evaluates to the number that is written, or to the value of the name. -/
theorem evaluate_assigned {s : Settings} {bound : String → Bool} {ts rest : List Token} {r : Expr}
    (h : Expr.Grammar.Assigned bound ts r rest) (m : Machine) :
    (∃ f, r.evaluate s m = (.error f, m)) ∨
      ∃ v, r.evaluate s m = (.ok (.value v), m) ∧
        ((∃ n, r = .literal (.value (.int n)) ∧ v = .int n) ∨
          ∃ y, r = .ref y ∧ m.bindings.get? y = some v) := by
  cases h with
  | number hsigned hn => exact .inr ⟨_, rfl, .inl ⟨_, rfl, rfl⟩⟩
  | @name t ht hb rest =>
    have hrun : (Expr.ref t.text).evaluate s m =
        ((m.bindings.lookup (.text t.text)).map .value, m) := rfl
    rw [hrun, Bindings.lookup_text]
    cases hget : m.bindings.get? t.text with
    | none => exact .inl ⟨_, rfl⟩
    | some v => exact .inr ⟨v, rfl, .inr ⟨_, rfl, hget⟩⟩

end Run

/-! ## What the grammar gives -/

namespace Expr.Grammar

variable {bound : String → Bool} {ts rest : List Token} {e : Expr}

/-- Assignments are lines and no parts of lines. -/
theorem Term.not_assigns (h : Term bound ts e rest) : e.assigns = false := by
  induction h with
  | vector => rfl
  | name => rfl
  | unary _ _ _ ih => exact ih

theorem Chain.not_assigns (h : Chain bound ts e rest) : e.assigns = false := by
  induction h with
  | term h => exact h.not_assigns
  | binary _ _ _ _ hright ih =>
    rw [Expr.assigns, ih, hright.not_assigns]
    rfl
  | unary _ _ _ ih => exact ih

/-- The line is an assignment. -/
def IsAssignment (bound : String → Bool) (ts : List Token) : Prop :=
  ∃ x r, Line bound ts (.assign x r)

end Expr.Grammar

/-! ## Lines -/

open Token Expr.Grammar

/-- A line that has been parsed is evaluated, and what it gives is checked to be a value. -/
theorem Machine.evaluateLine_of_parse {s : Settings} {source : String} {m : Machine} {e : Expr}
    (h : Run.parse s source m = (.ok e, m)) :
    m.evaluateLine s source =
      (do
        let d ← e.evaluate s
        Run.lift (d.expect "line result") : Run Value) m :=
  Reader.run_bind_of_ok h _

/-- The line of a tree without an assignment keeps the bindings. -/
theorem Machine.bindings_of_parse {s : Settings} {source : String} {m : Machine} {e : Expr}
    (h : Run.parse s source m = (.ok e, m)) (he : e.assigns = false) :
    (m.evaluateLine s source).2.bindings = m.bindings := by
  rw [Machine.evaluateLine_of_parse h]
  exact (Run.keeps_evaluate s he).bind (fun _ => Run.keeps_lift _) m

/-- An assignment ends in a fault before it binds its name, or binds it to what it gives. -/
theorem Machine.evaluateLine_of_assign {s : Settings} {source : String} {m : Machine}
    {bound : String → Bool} {ts rest : List Token} {x : String} {r : Expr}
    (h : Run.parse s source m = (.ok (.assign x r), m)) (hr : Assigned bound ts r rest) :
    (∃ f, m.evaluateLine s source = (.error f, m)) ∨
      ∃ v m', m.evaluateLine s source = (.ok v, m') ∧
        ((∃ n, r = .literal (.value (.int n)) ∧ v = .int n) ∨
          ∃ y, r = .ref y ∧ m.bindings.get? y = some v) ∧
        m'.bindings.entries = m.bindings.boundEntries x v := by
  rw [Machine.evaluateLine_of_parse h]
  have hassign : (Expr.assign x r).evaluate s m =
      (r.evaluate s >>= fun d => Run.assign x d) m := rfl
  rcases Run.evaluate_assigned hr m with ⟨f, hf⟩ | ⟨v, hv, hwritten⟩
  · left
    rw [Reader.run_bind_of_error hf] at hassign
    exact ⟨f, Reader.run_bind_of_error hassign _⟩
  · rw [Reader.run_bind_of_ok hv] at hassign
    rcases Run.assign_value x v m with ⟨-, f, hf⟩ | ⟨m', hm', hentries⟩
    · left
      exact ⟨f, Reader.run_bind_of_error (hassign.trans hf) _⟩
    · right
      -- what has been bound is a value, so the check at the end passes
      exact ⟨v, m', Reader.run_bind_of_ok (hassign.trans hm') _, hwritten, hentries⟩

/-- A line that ends in a fault changes no binding. A line that gives `v` changes none either, unless
it is an assignment; then it binds its name to `v` and touches no other entry, and `v` is the number
that is written or the value that the name on the right had before. -/
theorem Machine.evaluateLine_atomic (s : Settings) (source : String) (m : Machine) :
    (∀ f, (m.evaluateLine s source).1 = .error f →
      (m.evaluateLine s source).2.bindings = m.bindings) ∧
    ∀ v, (m.evaluateLine s source).1 = .ok v →
      (¬ IsAssignment m.bindings.contains (tokenize source) ∧
        (m.evaluateLine s source).2.bindings = m.bindings) ∨
      ∃ x r, Line m.bindings.contains (tokenize source) (.assign x r) ∧
        ((∃ n, r = .literal (.value (.int n)) ∧ v = .int n) ∨
          ∃ y, r = .ref y ∧ m.bindings.get? y = some v) ∧
        (m.evaluateLine s source).2.bindings.entries = m.bindings.boundEntries x v := by
  -- a fault of the parser comes before anything is evaluated
  rcases Run.parse_cases s source m with ⟨e, hparse, hrun⟩ | ⟨f, m', -, hrun, hm'⟩
  · have hline := Expr.line_of_parse hparse
    -- a tree without an assignment is the only tree of its line
    have hkeeps : e.assigns = false → ¬ IsAssignment m.bindings.contains (tokenize source) ∧
        (m.evaluateLine s source).2.bindings = m.bindings := by
      intro he
      refine ⟨?_, Machine.bindings_of_parse hrun he⟩
      rintro ⟨x, r, hassign⟩
      rw [line_unique (regular_tokenize source) hline hassign] at he
      cases he
    cases hline with
    | chain hgap hchain hend =>
      obtain ⟨hnot, hbindings⟩ := hkeeps hchain.not_assigns
      exact ⟨fun _ _ => hbindings, fun _ _ => .inl ⟨hnot, hbindings⟩⟩
    | @assign x _ _ _ _ _ _ r hgap hx hgap' ha hgap'' hr hend =>
      have hassign := Line.assign hgap hx hgap' ha hgap'' hr hend
      rcases Machine.evaluateLine_of_assign hrun hr with ⟨f, hf⟩ | ⟨v, m', hv, hwritten, hentries⟩
      · rw [hf]
        exact ⟨fun _ _ => rfl, fun _ hv => nomatch hv⟩
      · rw [hv]
        refine ⟨(fun _ hf => nomatch hf), fun v' hv' => ?_⟩
        cases hv'
        exact .inr ⟨x.text, r, hassign, hwritten, hentries⟩
  · have hfault : m.evaluateLine s source = (.error f, m') := Reader.run_bind_of_error hrun _
    rw [hfault]
    exact ⟨fun _ _ => hm', fun _ hv => nomatch hv⟩

/-- An assignment of a number binds its name, and one of an unbound name binds nothing. -/
theorem Machine.evaluateLine_assignments :
    (Machine.new.evaluateLine .default "x = 3").2.bindings.entries = [("x", .int 3)] ∧
      (Machine.new.evaluateLine .default "x = y").2.bindings = .empty := by
  refine ⟨?_, (evaluateLine_atomic .default "x = y" .new).1 (.undefined (.text "y"))
    (by decide +kernel)⟩
  have hparse : Expr.parse .default .empty "x = 3" =
      .ok (.assign "x" (.literal (.value (.int 3)))) := by
    decide +kernel
  have hline := Expr.line_of_parse hparse
  rcases (evaluateLine_atomic .default "x = 3" .new).2 (.int 3) (by decide +kernel) with
    ⟨hnot, -⟩ | ⟨x, r, hassign, -, hentries⟩
  · exact absurd ⟨_, _, hline⟩ hnot
  · cases line_unique (regular_tokenize "x = 3") hline hassign
    exact hentries

end VectorCalc
