import VectorCalc.Proofs.Machine.Isolation

/-!
# Operators are prepared once

Interpreters have the operators in common that some of them has prepared, and the log that tells of it.
A line applies an operator with the kernel that was kept for it, which is the operator's own, so a run
gives and binds the same whether or not operators are prepared (`Pool.run_visible`). What is left to say is when the log tells of an operator: at the first
application of it by any line of any interpreter, and never again.

To say so, the applications of operators are listed in the order in which they are made, each with the
machine on which it is made (`Expr.calls`, `Pool.calls`). Between two of them nothing is prepared
(`Passes`), and each of them tells of its operator if it is the first one with it (`Machine.Tells`).
-/

namespace VectorCalc

/-! ## Applications -/

/-- What can be applied: an operator by its symbol, to its operands. -/
inductive Application where
  | unary (symbol : String) (operand : Datum)
  | binary (symbol : String) (left right : Datum)

namespace Application

/-- The symbol of the operator. -/
def symbol : Application → String
  | .unary symbol _ | .binary symbol _ _ => symbol

/-- Apply the operator. -/
def run (s : Settings) : Application → Run Value
  | .unary symbol operand => Run.unary s symbol operand
  | .binary symbol left right => Run.binary s symbol left right

/-- The operator, if there is one with this symbol. -/
def operator? : Application → Option Operator
  | .unary symbol _ => (UnaryOp.ofSymbol? symbol).map .unary
  | .binary symbol _ _ => (BinaryOp.ofSymbol? symbol).map .binary

/-- An application prepares its operator, whatever comes of it, and does nothing else to the machine.
An operator that does not exist is not prepared. -/
theorem run_snd (s : Settings) (a : Application) (m : Machine) :
    (a.run s m).2 = a.operator?.elim m (m.prepare s) := by
  cases a with
  | unary symbol operand =>
    rw [run, Run.unary_eq, operator?]
    cases UnaryOp.ofSymbol? symbol <;> rfl
  | binary symbol left right =>
    rw [run, Run.binary_eq, operator?]
    cases BinaryOp.ofSymbol? symbol <;> rfl

end Application

/-- An application together with the machine on which it is made. -/
structure Call where
  application : Application
  machine : Machine

namespace Call

/-- The machine behind the application. -/
def after (s : Settings) (c : Call) : Machine := (c.application.run s c.machine).2

/-- The operators that have been applied, the first one first. -/
def operators (cs : List Call) : List Operator := cs.filterMap fun c => c.application.operator?

theorem operators_append (cs cs' : List Call) :
    operators (cs ++ cs') = operators cs ++ operators cs' := List.filterMap_append

/-- The calls that follow an outcome, if it is no fault. -/
def behind {α : Type} (calls : α → Machine → List Call) : Except Fault α × Machine → List Call
  | (.ok a, m) => calls a m
  | (.error _, _) => []

end Call

open Call (behind operators)

/-- The calls that the evaluation of a tree makes, in order. -/
def Expr.calls (s : Settings) : Expr → Machine → List Call
  | .literal _, _ | .ref _, _ | .foreign _, _ => []
  | .assign _ value, m => value.calls s m
  | .unary symbol operand, m =>
    match UnaryOp.ofSymbol? symbol with
    | none => []
    | some _ =>
      operand.calls s m ++ behind (fun d m => [⟨.unary symbol d, m⟩]) (operand.evaluate s m)
  | .binary symbol left right, m =>
    match BinaryOp.ofSymbol? symbol with
    | none => []
    | some _ =>
      left.calls s m ++ behind (fun l m => right.calls s m ++
        behind (fun r m => [⟨.binary symbol l r, m⟩]) (right.evaluate s m)) (left.evaluate s m)

/-- The calls that a line makes. A line that is not parsed makes none. -/
def Machine.calls (s : Settings) (source : String) (m : Machine) : List Call :=
  match Expr.parse s m.bindings source with
  | .ok e => e.calls s m
  | .error _ => []

/-- The calls that lines make in their interpreters. -/
def Pool.calls (s : Settings) : List (String × String) → Pool → List Call
  | [], _ => []
  | (interpreter, line) :: rest, p =>
    (p.machineOf interpreter).calls s line ++ calls s rest (p.step s interpreter line).2

/-! ### Which calls these are -/

/-- The symbols of a tree, those of the operands before that of the operator on them. -/
def Expr.symbols : Expr → List String
  | .literal _ | .ref _ | .foreign _ => []
  | .assign _ value => value.symbols
  | .unary symbol operand => operand.symbols ++ [symbol]
  | .binary symbol left right => left.symbols ++ (right.symbols ++ [symbol])

namespace Run

variable {α β : Type} {x : Run α} {k : α → Run β} {m : Machine} {cs : List Call}
  {symbols symbols' : List String}

/-- The calls apply the first few of the symbols, and all of them if no fault arises. -/
structure Applies (symbols : List String) (x : Run α) (m : Machine) (cs : List Call) : Prop where
  first : cs.map (·.application.symbol) <+: symbols
  all : ∀ a, (x m).1 = .ok a → cs.map (·.application.symbol) = symbols

theorem applies_throw (symbols : List String) (f : Fault) (m : Machine) :
    Applies symbols (throw f : Run α) m [] := ⟨List.nil_prefix, fun _ h => nomatch h⟩

theorem Applies.bind {calls : α → Machine → List Call} (hx : Applies symbols x m cs)
    (hk : ∀ a m', Applies symbols' (k a) m' (calls a m')) :
    Applies (symbols ++ symbols') (x >>= k) m (cs ++ behind calls (x m)) := by
  obtain ⟨hfirst, hall⟩ := hx
  rcases hrun : x m with ⟨f | a, m'⟩
  · rw [behind, List.append_nil]
    refine ⟨hfirst.trans (List.prefix_append _ _), fun b hb => ?_⟩
    rw [Token.Reader.run_bind_of_error hrun] at hb
    cases hb
  · rw [hrun] at hall
    obtain ⟨hfirst', hall'⟩ := hk a m'
    rw [behind]
    constructor
    · rw [List.map_append, hall a rfl]
      exact (List.prefix_append_right_inj _).2 hfirst'
    · intro b hb
      rw [Token.Reader.run_bind_of_ok hrun] at hb
      rw [List.map_append, hall a rfl, hall' b hb]

/-- What follows and applies nothing. -/
theorem Applies.bind_rest (hx : Applies symbols x m cs) (k : α → Run β) :
    Applies symbols (x >>= k) m cs := by
  refine ⟨hx.first, fun b hb => ?_⟩
  rcases hrun : x m with ⟨f | a, m'⟩
  · rw [Token.Reader.run_bind_of_error hrun] at hb
    cases hb
  · exact hx.all a (congrArg Prod.fst hrun)

/-- An application has its own symbol. -/
theorem applies_application (x : Run α) (a : Application) (m : Machine) :
    Applies [a.symbol] x m [⟨a, m⟩] := ⟨List.prefix_refl _, fun _ _ => rfl⟩

/-- The calls of a tree apply its symbols in order, up to a fault. -/
theorem applies_evaluate (s : Settings) (e : Expr) (m : Machine) :
    Applies e.symbols (e.evaluate s) m (e.calls s m) := by
  induction e generalizing m with
  | literal d => exact ⟨List.prefix_refl _, fun _ _ => rfl⟩
  | ref name => exact ⟨List.prefix_refl _, fun _ _ => rfl⟩
  | foreign kind => exact applies_throw _ _ _
  | assign name value ih => exact (ih m).bind_rest _
  | unary symbol operand ih =>
    rw [Expr.calls, Expr.evaluate]
    cases UnaryOp.ofSymbol? symbol with
    | none => exact applies_throw _ _ _
    | some op => exact (ih m).bind fun d m' => applies_application _ (.unary symbol d) m'
  | binary symbol left right ihl ihr =>
    rw [Expr.calls, Expr.evaluate]
    cases BinaryOp.ofSymbol? symbol with
    | none => exact applies_throw _ _ _
    | some op =>
      refine (ihl m).bind fun l m' => ?_
      exact (ihr m').bind fun r m'' => applies_application _ (.binary symbol l r) m''

end Run

/-! ## What the log tells -/

namespace Machine

variable {s : Settings} {m m' m'' : Machine} {op : Operator} {ops : List Operator}

/-- How often the log tells that the operator has been prepared. -/
def told (m : Machine) (op : Operator) : Nat := m.log.count (.preparing op)

/-- Nothing has been prepared between the two machines, and nothing told of it. -/
structure Quiet (m m' : Machine) : Prop where
  prepared : m'.prepared = m.prepared
  told : ∀ op, m'.told op = m.told op

theorem Quiet.refl (m : Machine) : m.Quiet m := ⟨rfl, fun _ => rfl⟩

theorem Quiet.trans (h : m.Quiet m') (h' : m'.Quiet m'') : m.Quiet m'' :=
  ⟨h'.prepared.trans h.prepared, fun op => (h'.told op).trans (h.told op)⟩

/-- All other records are quiet. -/
theorem quiet_note {r : Record} (hr : ∀ op, r ≠ .preparing op) (m : Machine) : m.Quiet (m.note r) :=
  ⟨rfl, fun op => List.count_cons_of_ne (hr op)⟩

/-- Of the operators that have been applied the log tells once, unless preparing is switched off, and
of all others it does not. -/
structure Tells (s : Settings) (ops : List Operator) (m : Machine) : Prop where
  prepared : ∀ op, op ∈ m.prepared ↔ s.prepares = true ∧ op ∈ ops
  told : ∀ op, m.told op = if s.prepares = true ∧ op ∈ ops then 1 else 0

theorem Tells.quiet (h : m.Tells s ops) (hm : m.Quiet m') : m'.Tells s ops where
  prepared op := by
    rw [hm.prepared]
    exact h.prepared op
  told op := (hm.told op).trans (h.told op)

/-- Before anything has been prepared the log tells of no operator. -/
theorem tells_nil (hprepared : m.prepared = .empty) (hlog : ∀ op, .preparing op ∉ m.log) :
    m.Tells s [] where
  prepared op := by simp [hprepared, Kernels.not_mem_empty]
  told op := by simp [Machine.told, List.count_eq_zero_of_not_mem (hlog op)]

theorem prepare_of_new (hs : s.prepares = true) (hop : op ∉ m.prepared) :
    m.prepare s op = m.keepKernel op := if_pos ⟨hs, hop⟩

theorem prepare_of_old (h : ¬ (s.prepares = true ∧ op ∉ m.prepared)) : m.prepare s op = m :=
  if_neg h

/-- The log tells of the operator that is applied now if it has not done so before. -/
theorem Tells.prepare (h : m.Tells s ops) (op : Operator) :
    (m.prepare s op).Tells s (ops ++ [op]) := by
  by_cases hs : s.prepares = true
  · by_cases hop : op ∈ ops
    · -- the operator has been prepared before, and no member is new in the list
      have hold : op ∈ m.prepared := (h.prepared op).2 ⟨hs, hop⟩
      have hmem : ∀ other, other ∈ ops ++ [op] ↔ other ∈ ops := by
        intro other
        rw [List.mem_append, List.mem_singleton, or_iff_left_of_imp]
        rintro rfl
        exact hop
      rw [prepare_of_old fun hnew => hnew.2 hold]
      exact ⟨fun other => by rw [hmem, h.prepared], fun other => by simp only [hmem, h.told]⟩
    · have hnew : op ∉ m.prepared := fun hmem => hop ((h.prepared op).1 hmem).2
      rw [prepare_of_new hs hnew]
      constructor
      · intro other
        rw [keepKernel, Kernels.mem_add, h.prepared, List.mem_append, List.mem_singleton]
        simp only [hs, true_and]
        exact or_comm
      · intro other
        have hother := h.told other
        unfold Machine.told at hother ⊢
        rw [keepKernel, List.count_cons, hother]
        by_cases he : other = op
        · simp [he, hs, hop]
        · have hrecord : (Record.preparing op == Record.preparing other) = false := by
            rw [beq_eq_false_iff_ne, ne_eq, Record.preparing.injEq]
            exact Ne.symm he
          simp [he, hrecord]
  · rw [prepare_of_old fun hnew => hs hnew.1]
    exact ⟨fun other => by simp [h.prepared, hs], fun other => by simp [h.told, hs]⟩

/-- The same for an application, of which the symbol may be that of no operator. -/
theorem Tells.after {c : Call} (h : c.machine.Tells s ops) :
    (c.after s).Tells s (ops ++ operators [c]) := by
  rw [Call.after, Application.run_snd, operators, List.filterMap_cons]
  cases c.application.operator? with
  | none =>
    rw [List.filterMap_nil, List.append_nil]
    exact h
  | some op => exact h.prepare op

end Machine

/-! ## From call to call -/

/-- The calls lead from the first machine to the second one, and nothing is prepared between them. -/
inductive Passes (s : Settings) : Machine → List Call → Machine → Prop where
  | rest {m m' : Machine} (h : m.Quiet m') : Passes s m [] m'
  | call {m m' : Machine} {c : Call} {cs : List Call} (h : m.Quiet c.machine)
    (hrest : Passes s (c.after s) cs m') : Passes s m (c :: cs) m'

namespace Passes

variable {α β : Type} {s : Settings} {m m' m'' : Machine} {cs cs' : List Call}
  {ops : List Operator}

theorem of_quiet (hm : m.Quiet m') (h : Passes s m' cs m'') : Passes s m cs m'' := by
  cases h with
  | rest h => exact .rest (hm.trans h)
  | call h hrest => exact .call (hm.trans h) hrest

theorem append (h : Passes s m cs m') (h' : Passes s m' cs' m'') : Passes s m (cs ++ cs') m'' := by
  induction h with
  | rest h => exact of_quiet h h'
  | call h _ ih => exact .call h (ih h')

theorem quiet (h : Passes s m cs m') (hm : m'.Quiet m'') : Passes s m cs m'' := by
  have h' := h.append (.rest hm)
  rw [List.append_nil] at h'
  exact h'

/-- What the log tells on the way: before a call of the operators of the calls before it, behind a call
of its own operator as well, and at last of all of them. -/
theorem tells (h : Passes s m cs m') (hm : m.Tells s ops) :
    (∀ front c back, cs = front ++ c :: back →
      c.machine.Tells s (ops ++ operators front) ∧
        (c.after s).Tells s (ops ++ operators (front ++ [c]))) ∧
      m'.Tells s (ops ++ operators cs) := by
  induction h generalizing ops with
  | rest h =>
    refine ⟨fun front c back hcs => ?_, ?_⟩
    · cases front <;> cases hcs
    · rw [operators, List.filterMap_nil, List.append_nil]
      exact hm.quiet h
  | @call m m' c cs h _ ih =>
    have hbefore := hm.quiet h
    obtain ⟨hpoints, hend⟩ := ih hbefore.after
    have hoperators : ∀ cs, ops ++ operators [c] ++ operators cs = ops ++ operators (c :: cs) := by
      intro cs
      rw [List.append_assoc, ← Call.operators_append, List.singleton_append]
    refine ⟨fun front c' back hcs => ?_, hoperators cs ▸ hend⟩
    cases front with
    | nil =>
      cases hcs
      refine ⟨?_, hbefore.after⟩
      rw [operators, List.filterMap_nil, List.append_nil]
      exact hbefore
    | cons d front =>
      cases hcs
      obtain ⟨hc, hafter⟩ := hpoints front c' back rfl
      rw [hoperators] at hc hafter
      exact ⟨hc, hafter⟩

/-! ## Computations -/

/-- The calls of a sequence of computations. -/
theorem bind {x : Run α} {k : α → Run β} {calls : α → Machine → List Call}
    (hx : Passes s m cs (x m).2) (hk : ∀ a m', Passes s m' (calls a m') (k a m').2) :
    Passes s m (cs ++ behind calls (x m)) ((x >>= k) m).2 := by
  rcases hrun : x m with ⟨f | a, m'⟩
  · rw [Token.Reader.run_bind_of_error hrun, behind, List.append_nil]
    rw [hrun] at hx
    exact hx
  · rw [Token.Reader.run_bind_of_ok hrun, behind]
    rw [hrun] at hx
    exact hx.append (hk a m')

/-- What follows and prepares nothing. -/
theorem bind_quiet {x : Run α} {k : α → Run β} (hx : Passes s m cs (x m).2)
    (hk : ∀ a (m' : Machine), m'.Quiet (k a m').2) : Passes s m cs ((x >>= k) m).2 := by
  rcases hrun : x m with ⟨f | a, m'⟩
  · rw [Token.Reader.run_bind_of_error hrun]
    rw [hrun] at hx
    exact hx
  · rw [Token.Reader.run_bind_of_ok hrun]
    rw [hrun] at hx
    exact hx.quiet (hk a m')

/-- An application is one call. -/
theorem application (a : Application) (m : Machine) :
    Passes s m [⟨a, m⟩] ((a.run s >>= fun v => pure (Datum.value v)) m).2 :=
  bind_quiet (.call (.refl m) (.rest (.refl _))) fun _ => .refl

/-- Binding a name prepares nothing. -/
theorem quiet_assign (name : String) (d : Datum) (m : Machine) :
    m.Quiet (Run.assign name d m).2 := by
  cases hbind : m.bindings.bind (.text name) d with
  | error f =>
    rw [Run.assign_of_error hbind]
    exact .refl m
  | ok b =>
    have hget : (get : Run Machine) m = (.ok m, m) := rfl
    have hlift : Run.lift (m.bindings.bind (.text name) d) m = (.ok b, m) := by
      rw [hbind]
      rfl
    unfold Run.assign
    rw [Token.Reader.run_bind_of_ok hget, Token.Reader.run_bind_of_ok hlift]
    have hset : m.Quiet { m with bindings := b } := ⟨rfl, fun _ => rfl⟩
    cases d with
    | value v => exact hset.trans (Machine.quiet_note (r := .bound name v) (fun _ h => nomatch h) _)
    | foreign h => exact hset

/-- An evaluation passes from one of the calls of its tree to the next. -/
theorem evaluate (s : Settings) (e : Expr) (m : Machine) :
    Passes s m (e.calls s m) (e.evaluate s m).2 := by
  induction e generalizing m with
  | literal d => exact .rest (.refl m)
  | ref name => exact .rest (.refl m)
  | foreign kind => exact .rest (.refl m)
  | assign name value ih => exact (ih m).bind_quiet (quiet_assign name)
  | unary symbol operand ih =>
    rw [Expr.calls, Expr.evaluate]
    cases UnaryOp.ofSymbol? symbol with
    | none => exact .rest (.refl m)
    | some op => exact (ih m).bind fun d => application (.unary symbol d)
  | binary symbol left right ihl ihr =>
    rw [Expr.calls, Expr.evaluate]
    cases BinaryOp.ofSymbol? symbol with
    | none => exact .rest (.refl m)
    | some op =>
      refine (ihl m).bind (k := fun l => _) fun l m' => ?_
      exact (ihr m').bind fun r => application (.binary symbol l r)

/-- Parsing prepares nothing, even if it fails. -/
theorem quiet_parse (s : Settings) (source : String) (m : Machine) :
    m.Quiet (Run.parse s source m).2 := by
  have hget : (get : Run Machine) m = (.ok m, m) := rfl
  unfold Run.parse
  rw [Token.Reader.run_bind_of_ok hget]
  cases Expr.parse s m.bindings source with
  | ok e => exact .refl m
  | error f =>
    dsimp only
    cases hrecord : Record.ofParseFault f with
    | none => exact .refl m
    | some r =>
      refine Machine.quiet_note (fun op hr => ?_) m
      rw [hr] at hrecord
      unfold Record.ofParseFault at hrecord
      split at hrecord <;> cases hrecord

/-- So does a line. -/
theorem evaluateLine (s : Settings) (source : String) (m : Machine) :
    Passes s m (m.calls s source) (m.evaluateLine s source).2 := by
  rw [Machine.calls]
  rcases Run.parse_cases s source m with ⟨e, he, hrun⟩ | ⟨f, m', hf, hrun, -⟩
  · have hline : m.evaluateLine s source =
        (e.evaluate s >>= fun d => Run.lift (d.expect "line result")) m :=
      Token.Reader.run_bind_of_ok hrun _
    rw [he, hline]
    exact bind_quiet (evaluate s e m) fun _ => .refl
  · have hline : m.evaluateLine s source = (.error f, m') := Token.Reader.run_bind_of_error hrun _
    have hquiet := quiet_parse s source m
    rw [hrun] at hquiet
    rw [hf, hline]
    exact .rest hquiet

end Passes

/-! ## Runs of interpreters -/

namespace Pool

variable {s s' : Settings} {p p' : Pool} {steps : List (String × String)}

/-- What interpreters have in common, on a machine without bindings. -/
def common (p : Pool) : Machine := ⟨.empty, p.prepared, p.log⟩

/-- Lines pass from call to call in whatever interpreters they are evaluated. -/
theorem passes_after (s : Settings) (steps : List (String × String)) (p : Pool) :
    Passes s p.common (p.calls s steps) (p.after s steps).common := by
  induction steps generalizing p with
  | nil => exact .rest (.refl _)
  | cons step steps ih =>
    obtain ⟨interpreter, line⟩ := step
    -- the machine of an interpreter has bindings, and in common what all have
    have hmachine : p.common.Quiet (p.machineOf interpreter) := ⟨rfl, fun _ => rfl⟩
    have hline := Passes.evaluateLine s line (p.machineOf interpreter)
    have hcommon : ((p.machineOf interpreter).evaluateLine s line).2.Quiet
        (p.step s interpreter line).2.common := ⟨rfl, fun _ => rfl⟩
    exact (hline.of_quiet hmachine).append ((ih _).of_quiet hcommon)

/-- What a host sees of a step: the outcome of the line and the tables behind it. -/
def visible (step : Except Fault Value × Pool) : Except Fault Value × (Slot → Bindings) :=
  (step.1, step.2.tables)

/-- Lines give and bind the same whether or not operators are prepared, and whatever has been prepared
before. -/
theorem run_visible (hwidth : s'.width = s.width) (hcapacity : s'.capacity = s.capacity)
    (hslots : p'.slotOf = p.slotOf) (htables : p'.tables = p.tables) :
    (p'.run s' steps).map visible = (p.run s steps).map visible := by
  induction steps generalizing p p' with
  | nil => rfl
  | cons step steps ih =>
    obtain ⟨interpreter, line⟩ := step
    have hbindings : (p'.machineOf interpreter).bindings = (p.machineOf interpreter).bindings := by
      show p'.tables (p'.slotOf interpreter) = p.tables (p.slotOf interpreter)
      rw [hslots, htables]
    obtain ⟨houtcome, hafter⟩ :=
      Machine.evaluateLine_congr hwidth.symm hcapacity.symm line hbindings
    have hnext : (p'.step s' interpreter line).2.tables = (p.step s interpreter line).2.tables := by
      funext slot
      rw [tables_step, tables_step, hslots, htables, hafter]
    have hslots' : (p'.step s' interpreter line).2.slotOf = (p.step s interpreter line).2.slotOf :=
      hslots
    have hfirst : visible (p'.step s' interpreter line) = visible (p.step s interpreter line) :=
      Prod.ext houtcome hnext
    rw [run, run, List.map_cons, List.map_cons, hfirst, ih hslots' hnext]

/-- In a process that has not prepared anything yet, what lines give and bind in their interpreters does
not depend on whether operators are prepared. If they are, then before and behind each application of an
operator, and behind all lines, the log tells once of every operator that has been applied so far, with
whatever outcome, and of no other; if they are not, it never tells of any. The applications of a tree are
those of its operators, each behind its operands, up to a fault; and a symbol of no operator leaves
nothing in the log. -/
theorem run_tells (s : Settings) (steps : List (String × String)) (hprepared : p.prepared = .empty)
    (hlog : ∀ op, .preparing op ∉ p.log) :
    (∀ prepares, (p.run { s with prepares } steps).map visible = (p.run s steps).map visible) ∧
    (∀ front c back, p.calls s steps = front ++ c :: back → ∀ op,
      (c.machine.told op = if s.prepares = true ∧ op ∈ operators front then 1 else 0) ∧
      (c.after s).told op = if s.prepares = true ∧ op ∈ operators (front ++ [c]) then 1 else 0) ∧
    (∀ op, (p.after s steps).common.told op =
      if s.prepares = true ∧ op ∈ operators (p.calls s steps) then 1 else 0) ∧
    (∀ (e : Expr) (m : Machine), Run.Applies e.symbols (e.evaluate s) m (e.calls s m)) ∧
    ∀ (a : Application) (m : Machine), a.operator? = none → (a.run s m).2 = m := by
  have htells : p.common.Tells s [] := Machine.tells_nil hprepared hlog
  obtain ⟨hpoints, hend⟩ := (passes_after s steps p).tells htells
  refine ⟨fun prepares => run_visible rfl rfl rfl rfl, fun front c back hcalls op => ?_, hend.told,
    Run.applies_evaluate s, fun a m ha => ?_⟩
  · obtain ⟨hbefore, hafter⟩ := hpoints front c back hcalls
    exact ⟨hbefore.told op, hafter.told op⟩
  · rw [Application.run_snd, ha]
    rfl

/-- Lines that reduce an integer, add operands that do not go together, and then reduce and add again. -/
def sums : List (String × String) := [("a", "+/ 5"), ("b", "1 2 + 1"), ("b", "+/ 1 2 + 3")]

/-- The two operators are prepared where they do nothing and where they fail, and not again by another
interpreter. -/
theorem run_tells_sums :
    operators (new.calls .default sums) = [.unary .sum, .binary .add, .unary .sum, .binary .add] ∧
      (new.after .default sums).common.told (.binary .add) = 1 ∧
      (new.after .default sums).common.told (.binary .multiply) = 0 := by
  have hcalls : operators (new.calls .default sums) =
      [.unary .sum, .binary .add, .unary .sum, .binary .add] := by
    decide +kernel
  obtain ⟨-, -, htold, -, -⟩ := run_tells (p := new) .default sums rfl fun _ => List.not_mem_nil
  refine ⟨hcalls, ?_, ?_⟩
  · rw [htold, hcalls]
    rfl
  · rw [htold, hcalls]
    rfl

end Pool

end VectorCalc
