import VectorCalc.Proofs.Expr.Scope
import VectorCalc.Proofs.Machine.Progress

/-!
# What a line sees of its bindings

A line sees the values of the names that it mentions. On two tables that agree on these, whatever else
they hold and in whatever order, it has the same outcome, and it does the same to both: nothing, or it
binds one name to one value (`Machine.evaluateLine_sees`).

`Run.Sees` says of a computation that it keeps the bindings and that its outcome depends on the values
of given names only. It goes through sequences, because the second part runs on the bindings of the
first. The tree of a chain sees the identifiers among the tokens of the chain.
-/

namespace VectorCalc

open Token

/-! ## Tables -/

/-- The same of these names are bound, to the same values. -/
def Bindings.AgreeOn (names : List String) (b b' : Bindings) : Prop :=
  ∀ x ∈ names, b.get? x = b'.get? x

instance (names : List String) (b b' : Bindings) : Decidable (b.AgreeOn names b') :=
  inferInstanceAs (Decidable (∀ x ∈ names, b.get? x = b'.get? x))

/-! ## Computations -/

namespace Run

variable {α β : Type} {names : List String} {s : Settings}

/-- The computation keeps the bindings, and its outcome depends on the values of these names only. -/
structure Sees (names : List String) (x : Run α) : Prop where
  keeps : Keeps x
  outcome (m m' : Machine) (h : m.bindings.AgreeOn names m'.bindings) : (x m).1 = (x m').1

theorem sees_pure (a : α) : Sees names (pure a : Run α) := ⟨keeps_pure a, fun _ _ _ => rfl⟩

theorem sees_throw (f : Fault) : Sees names (throw f : Run α) := ⟨keeps_throw f, fun _ _ _ => rfl⟩

theorem sees_lift (o : Except Fault α) : Sees names (lift o) := ⟨keeps_lift o, fun _ _ _ => rfl⟩

theorem sees_prepare (s : Settings) (op : Operator) : Sees names (update (.prepare s op)) :=
  ⟨keeps_update (bindings_prepare s op), fun _ _ _ => rfl⟩

theorem sees_lookup {x : String} (hx : x ∈ names) : Sees names (lookup x) := by
  refine ⟨keeps_lookup x, fun m m' h => ?_⟩
  show (m.bindings.lookup (.text x)).map Datum.value = (m'.bindings.lookup (.text x)).map Datum.value
  rw [Bindings.lookup_text, Bindings.lookup_text, h x hx]

theorem Sees.bind {x : Run α} {k : α → Run β} (hx : Sees names x) (hk : ∀ a, Sees names (k a)) :
    Sees names (x >>= k) := by
  refine ⟨hx.keeps.bind fun a => (hk a).keeps, fun m m' h => ?_⟩
  have hm := hx.keeps m
  have hm' := hx.keeps m'
  have hfirst := hx.outcome m m' h
  rw [Reader.run_bind, Reader.run_bind]
  rcases hrun : x m with ⟨o, m₁⟩
  rcases hrun' : x m' with ⟨o', m₁'⟩
  rw [hrun] at hm hfirst
  rw [hrun'] at hm' hfirst
  obtain rfl : o = o' := hfirst
  cases o with
  | error f => rfl
  | ok a =>
    -- the second part runs on the bindings of the first
    have hagree : m₁.bindings.AgreeOn names m₁'.bindings := by
      rw [hm, hm']
      exact h
    exact (hk a).outcome m₁ m₁' hagree

theorem sees_unary (symbol : String) (d : Datum) : Sees names (unary s symbol d) := by
  rw [unary_eq]
  split
  · exact sees_throw _
  · exact (sees_prepare s _).bind fun _ => sees_lift _

theorem sees_binary (symbol : String) (l r : Datum) : Sees names (binary s symbol l r) := by
  rw [binary_eq]
  split
  · exact sees_throw _
  · exact (sees_prepare s _).bind fun _ => sees_lift _

end Run

/-! ## Trees -/

namespace Expr

open Run

variable {s : Settings} {names : List String} {bound : String → Bool} {ts rest : List Token}
  {e left right : Expr}

theorem sees_unary (symbol : String) (h : Sees names (e.evaluate s)) :
    Sees names ((Expr.unary symbol e).evaluate s) := by
  rw [evaluate]
  split
  · exact sees_throw _
  · exact h.bind fun d => (Run.sees_unary symbol d).bind fun v => sees_pure _

theorem sees_binary (symbol : String) (hl : Sees names (left.evaluate s))
    (hr : Sees names (right.evaluate s)) :
    Sees names ((Expr.binary symbol left right).evaluate s) := by
  rw [evaluate]
  split
  · exact sees_throw _
  · exact hl.bind fun l => hr.bind fun r => (Run.sees_binary symbol l r).bind fun v => sees_pure _

namespace Grammar

/-- The identifiers among the tokens are among these names. -/
def Names (names : List String) (ts : List Token) : Prop :=
  ∀ t ∈ ts, t.kind = .identifier → t.text ∈ names

theorem Names.suffix {us : List Token} (h : Names names ts) (hus : us <:+ ts) : Names names us := by
  intro t ht hkind
  exact h t (hus.mem ht) hkind

theorem Term.sees (h : Term bound ts e rest) (hts : Names names ts) :
    Sees names (e.evaluate s) := by
  induction h with
  | vector => exact sees_pure _
  | name ht => exact sees_lookup (hts _ List.mem_cons_self ht)
  | unary _ hgap _ ih =>
    exact sees_unary _ (ih (hts.suffix (hgap.suffix.trans (List.suffix_cons _ _))))

theorem Chain.sees (h : Chain bound ts e rest) (hts : Names names ts) :
    Sees names (e.evaluate s) := by
  induction h with
  | term h => exact h.sees hts
  | binary hleft hgap _ hgap' hright ih =>
    have hright' := hgap'.suffix.trans
      ((List.suffix_cons _ _).trans (hgap.suffix.trans hleft.suffix))
    exact sees_binary _ (ih hts) (hright.sees (hts.suffix hright'))
  | unary _ _ _ ih => exact sees_unary _ (ih hts)

theorem Assigned.sees (h : Assigned bound ts e rest) (hts : Names names ts) :
    Sees names (e.evaluate s) := by
  cases h with
  | number => exact sees_pure _
  | name ht => exact sees_lookup (hts _ List.mem_cons_self ht)

end Grammar

end Expr

/-! ## Lines -/

namespace Machine

open Expr.Grammar

variable {s : Settings} {source : String} {m m' m₁ : Machine} {e r : Expr} {x : String} {v : Value}

/-- An assignment of a tree that keeps the bindings binds its name to the value of the tree. -/
theorem evaluateLine_binds (hrun : Run.parse s source m = (.ok (.assign x r), m)) (hx : x ≠ "")
    (hr : r.evaluate s m = (.ok (.value v), m₁)) (hm₁ : m₁.bindings = m.bindings) :
    (m.evaluateLine s source).1 = .ok v ∧
      (m.evaluateLine s source).2.bindings.entries = m.bindings.boundEntries x v := by
  rw [evaluateLine_of_parse hrun]
  have hassign : (Expr.assign x r).evaluate s m = Run.assign x (.value v) m₁ :=
    Reader.run_bind_of_ok hr _
  rcases Run.assign_value x v m₁ with ⟨hempty, -⟩ | ⟨m₂, hm₂, hentries⟩
  · exact absurd hempty hx
  · rw [Reader.run_bind_of_ok (hassign.trans hm₂)]
    rw [hm₁] at hentries
    exact ⟨rfl, hentries⟩

/-- A chain has the same outcome on machines that agree on its identifiers, and it binds nothing. -/
theorem evaluateLine_chain_congr {names : List String} {bound : String → Bool} {ts rest : List Token}
    (hrun : Run.parse s source m = (.ok e, m)) (hrun' : Run.parse s source m' = (.ok e, m'))
    (hchain : Chain bound ts e rest) (hts : Names names ts)
    (h : m.bindings.AgreeOn names m'.bindings) :
    (m.evaluateLine s source).1 = (m'.evaluateLine s source).1 ∧
      (m.evaluateLine s source).2.bindings = m.bindings ∧
      (m'.evaluateLine s source).2.bindings = m'.bindings := by
  have hkeeps := hchain.not_assigns
  refine ⟨?_, bindings_of_parse hrun hkeeps, bindings_of_parse hrun' hkeeps⟩
  rw [evaluateLine_of_parse hrun, evaluateLine_of_parse hrun']
  exact ((hchain.sees hts).bind fun d => Run.sees_lift _).outcome m m' h

/-- An assignment binds its name to the same value on machines that agree on the identifiers of its right
side. -/
theorem evaluateLine_assign_congr {names : List String} {ts rest : List Token}
    (hrun : Run.parse s source m = (.ok (.assign x r), m))
    (hrun' : Run.parse s source m' = (.ok (.assign x r), m')) (hx : x ≠ "")
    (hr : Assigned m.bindings.contains ts r rest) (hts : Names names ts)
    (h : m.bindings.AgreeOn names m'.bindings) :
    ∃ v, (m.evaluateLine s source).1 = .ok v ∧ (m'.evaluateLine s source).1 = .ok v ∧
      (m.evaluateLine s source).2.bindings.entries = m.bindings.boundEntries x v ∧
      (m'.evaluateLine s source).2.bindings.entries = m'.bindings.boundEntries x v := by
  have hsees := hr.sees (s := s) hts
  obtain ⟨v, hv⟩ := Run.evaluate_of_assigned (s := s) hr
  -- the right side has the same value on the second machine
  have houtcome := hsees.outcome m m' h
  have hm' := hsees.keeps m'
  rw [hv] at houtcome
  rcases hv' : r.evaluate s m' with ⟨o, m₁⟩
  rw [hv'] at houtcome hm'
  obtain rfl : Except.ok (Datum.value v) = o := houtcome
  obtain ⟨hvalue, hentries⟩ := evaluateLine_binds hrun hx hv rfl
  obtain ⟨hvalue', hentries'⟩ := evaluateLine_binds hrun' hx hv' hm'
  exact ⟨v, hvalue, hvalue', hentries, hentries'⟩

/-- A line sees the names that it mentions. On machines that agree on these it has the same outcome, and
it changes no binding of either machine, or binds the same name to the same value on both. Its tree
depends on which of these names are bound, and not on their values. -/
theorem evaluateLine_sees (s : Settings) (source : String) :
    (∀ m m' : Machine, m.bindings.AgreeOn (identifiers source) m'.bindings →
      (m.evaluateLine s source).1 = (m'.evaluateLine s source).1 ∧
      ((m.evaluateLine s source).2.bindings = m.bindings ∧
          (m'.evaluateLine s source).2.bindings = m'.bindings ∨
        ∃ x ∈ identifiers source, ∃ v, (m.evaluateLine s source).1 = .ok v ∧
          (m.evaluateLine s source).2.bindings.entries = m.bindings.boundEntries x v ∧
          (m'.evaluateLine s source).2.bindings.entries = m'.bindings.boundEntries x v)) ∧
    ∀ b b' : Bindings, (∀ x ∈ identifiers source, b.contains x = b'.contains x) →
      Expr.parse s b source = Expr.parse s b' source := by
  refine ⟨fun m m' h => ?_, fun b b' h => Expr.parse_of_identifiers h⟩
  have hsame : Expr.parse s m.bindings source = Expr.parse s m'.bindings source := by
    refine Expr.parse_of_identifiers fun x hx => ?_
    rw [Bindings.contains_eq_isSome, Bindings.contains_eq_isSome, h x hx]
  have hnames : Names (identifiers source) (tokenize source) :=
    fun t ht hkind => text_mem_identifiers ht hkind
  rcases Run.parse_cases s source m with ⟨e, hparse, hrun⟩ | ⟨f, m₁, hparse, hrun, hm₁⟩
  · have hrun' := Run.parse_of_ok (hsame.symm.trans hparse)
    cases Expr.line_of_parse hparse with
    | chain hgap hchain hend =>
      obtain ⟨houtcome, hkeeps⟩ :=
        evaluateLine_chain_congr hrun hrun' hchain (hnames.suffix hgap.suffix) h
      exact ⟨houtcome, .inl hkeeps⟩
    | assign hgap hx hgap' ha hgap'' hr hend =>
      have hmem := hgap.suffix.mem List.mem_cons_self
      have hempty := (tiles_tokenize source).text_ne_empty hmem (Expr.Parse.ne_of_kind hx (by decide))
      have hright := hgap''.suffix.trans ((List.suffix_cons _ _).trans
        (hgap'.suffix.trans ((List.suffix_cons _ _).trans hgap.suffix)))
      obtain ⟨v, hvalue, hvalue', hentries⟩ :=
        evaluateLine_assign_congr hrun hrun' hempty hr (hnames.suffix hright) h
      exact ⟨hvalue.trans hvalue'.symm,
        .inr ⟨_, text_mem_identifiers hmem hx, v, hvalue, hentries⟩⟩
  · -- the fault of the parser is the same on both machines
    rcases Run.parse_cases s source m' with ⟨e, hparse', -⟩ | ⟨f', m₁', hparse', hrun', hm₁'⟩
    · cases hparse.symm.trans (hsame.trans hparse')
    · cases hparse.symm.trans (hsame.trans hparse')
      have hline : m.evaluateLine s source = (.error f, m₁) := Reader.run_bind_of_error hrun _
      have hline' : m'.evaluateLine s source = (.error f, m₁') := Reader.run_bind_of_error hrun' _
      rw [hline, hline']
      exact ⟨rfl, .inl ⟨hm₁, hm₁'⟩⟩

/-- What `z` stands for is not seen by a line that mentions `x` and `y`, and the parser does not see
whether `x` stands for an integer or for a vector. -/
theorem evaluateLine_sees_assignment :
    ((ofBindings ((Bindings.empty.insert "z" (by decide) (.int 5)).insert "x" (by decide)
        (.int 2))).evaluateLine .default "y = x").1 = .ok (.int 2) ∧
      Expr.parse .default (Bindings.empty.insert "x" (by decide) (.vector ⟨[1, 2], by decide⟩))
        "+/ x" = .ok (.unary "+/" (.ref "x")) := by
  constructor
  · obtain ⟨houtcome, -⟩ := (evaluateLine_sees .default "y = x").1
      (ofBindings (Bindings.empty.insert "x" (by decide) (.int 2)))
      (ofBindings ((Bindings.empty.insert "z" (by decide) (.int 5)).insert "x" (by decide) (.int 2)))
      (by decide +kernel)
    rw [← houtcome]
    decide +kernel
  · have hparse := (evaluateLine_sees .default "+/ x").2
      (Bindings.empty.insert "x" (by decide) (.vector ⟨[1, 2], by decide⟩))
      (Bindings.empty.insert "x" (by decide) (.int 2)) (by decide +kernel)
    rw [hparse]
    decide +kernel

end Machine

end VectorCalc
