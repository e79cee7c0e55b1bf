import Mathlib
import VectorCalc.Proofs.Expr.Blame
import VectorCalc.Proofs.Machine.Atomic

/-!
# Lines that are parsed

Once a line has been parsed little can go wrong: every operator of its tree exists, every name is
bound, and every operand is a value. What remains are the operands themselves, which may not go
together or may be too large for the words in use (`OperandFault`). An assignment has no operator, so
nothing can go wrong with it.

`Run.Settles` says that a computation on given bindings has no fault but of this sort. It goes through
sequences, and the tree of a chain is evaluated as a sequence of operators on values.
-/

namespace VectorCalc

/-- The operands of an operator are at fault: two vectors differ in length, an integer meets a vector,
or an integer is too large for words of 32 bits. -/
inductive OperandFault (w : Width) : Fault → Prop where
  | lengths (op : BinaryOp) {u v : Items} (h : u.length ≠ v.length) :
    OperandFault w (.unsupported (.lengthMismatch op.symbol u.length v.length))
  | kinds (op : BinaryOp) {l r : Value} (h : l.kind ≠ r.kind) :
    OperandFault w (.unsupported (.mixedOperands op.symbol l.kind r.kind))
  | size {v : Value} {n : Int64} (hw : w = .bits32) (hn : n ∈ v.toList)
    (h : w.fits n.toInt = false) : OperandFault w (.unsupported (.doesNotFit v w.bits))

/-! ## Operators on values -/

/-- Words of 64 bits hold every integer. -/
theorem Width.fits_toInt (n : Int64) : Width.bits64.fits n.toInt = true :=
  (Expr.Parse.ofInt_eq_iff.2 rfl).1

theorem Width.admit_failsOnly (w : Width) (v : Value) :
    FailsOnly (OperandFault w) <| w.admit v := by
  unfold Width.admit
  split
  · exact failsOnly_ok _
  · next h =>
    obtain ⟨n, hn, hfits⟩ : ∃ n ∈ v.toList, w.fits n.toInt = false := by
      simpa only [List.all_eq_true, not_forall, Bool.not_eq_true, exists_prop] using h
    -- only words of 32 bits can be too small
    refine failsOnly_error (.size ?_ hn hfits)
    cases w with
    | bits64 =>
      rw [Width.fits_toInt] at hfits
      cases hfits
    | bits32 => rfl

theorem BinaryOp.apply_failsOnly (w : Width) (op : BinaryOp) (left right : Value) :
    FailsOnly (OperandFault w) (op.apply w left right) := by
  cases left with
  | int x =>
    cases right with
    | int y =>
      exact (w.admit_failsOnly _).bind fun _ _ => (w.admit_failsOnly _).bind fun _ _ =>
        failsOnly_ok _
    | vector v => exact failsOnly_error (.kinds op (l := .int x) (r := .vector v) nofun)
  | vector u =>
    cases right with
    | int y => exact failsOnly_error (.kinds op (l := .vector u) (r := .int y) nofun)
    | vector v =>
      rw [BinaryOp.apply, BinaryOp.applyWith]
      dsimp only
      split_ifs with hlen
      · exact failsOnly_error (.lengths op hlen)
      · exact (w.admit_failsOnly _).bind fun _ _ => (w.admit_failsOnly _).bind fun _ _ =>
          failsOnly_ok _

theorem UnaryOp.apply_failsOnly (w : Width) (op : UnaryOp) (v : Value) :
    FailsOnly (OperandFault w) (op.apply w v) := by
  cases v with
  | int n => exact failsOnly_ok _
  | vector v => exact (w.admit_failsOnly _).bind fun _ _ => failsOnly_ok _

/-! ## Computations with operands -/

/-- The datum is a value. -/
def Datum.IsValue (d : Datum) : Prop := ∃ v, d = .value v

namespace Run

variable {α β : Type} {w : Width} {b : Bindings} {P : α → Prop} {Q : β → Prop}

/-- On a machine with the bindings `b` the computation gives a result of which `P` holds, or operands
are at fault, and it keeps the bindings. -/
def Settles (w : Width) (b : Bindings) (P : α → Prop) (x : Run α) : Prop :=
  ∀ m, m.bindings = b →
    (x m).2.bindings = b ∧ FailsOnly (OperandFault w) (x m).1 ∧ ∀ a, (x m).1 = .ok a → P a

theorem settles_pure {a : α} (h : P a) : Settles w b P (pure a : Run α) := by
  refine fun m hm => ⟨hm, failsOnly_ok a, fun a' ha' => ?_⟩
  cases ha'
  exact h

theorem settles_lift {o : Except Fault α} (h : FailsOnly (OperandFault w) o)
    (hP : ∀ a, o = .ok a → P a) : Settles w b P (lift o) := fun _ hm => ⟨hm, h, hP⟩

theorem Settles.bind {x : Run α} {k : α → Run β} (hx : Settles w b P x)
    (hk : ∀ a, P a → Settles w b Q (k a)) : Settles w b Q (x >>= k) := by
  intro m hm
  obtain ⟨hb, hfault, hP⟩ := hx m hm
  rw [Token.Reader.run_bind]
  rcases hrun : x m with ⟨f | a, m'⟩
  · rw [hrun] at hb hfault
    exact ⟨hb, failsOnly_error (hfault f rfl), nofun⟩
  · -- the second computation runs on the same bindings
    rw [hrun] at hb hP
    exact hk a (hP a rfl) m' hb

/-- Looking up a bound name gives its value and changes nothing. -/
theorem lookup_of_contains {name : String} {m : Machine} (h : m.bindings.contains name = true) :
    ∃ v, lookup name m = (.ok (.value v), m) := by
  obtain ⟨v, hv⟩ := m.bindings.exists_of_contains h
  refine ⟨v, ?_⟩
  show ((m.bindings.lookup (.text name)).map Datum.value, m) = _
  rw [Bindings.lookup_text, hv]
  rfl

theorem settles_lookup {name : String} (h : b.contains name = true) :
    Settles w b Datum.IsValue (lookup name) := by
  rintro m rfl
  obtain ⟨v, hrun⟩ := lookup_of_contains h
  rw [hrun]
  exact ⟨rfl, failsOnly_ok _, fun d hd => ⟨v, (Except.ok.inj hd).symm⟩⟩

/-- A value passes the check at the end of a line. -/
theorem settles_expect {place : String} {d : Datum} (h : d.IsValue) :
    Settles w b (fun _ => True) (lift (d.expect place)) := by
  obtain ⟨v, rfl⟩ := h
  exact settles_lift (failsOnly_ok v) fun _ _ => trivial

theorem settles_prepare (s : Settings) (op : Operator) :
    Settles w b (fun _ => True) (update (.prepare s op)) :=
  fun m hm => ⟨(bindings_prepare s op m).trans hm, failsOnly_ok _, fun _ _ => trivial⟩

variable {s : Settings} {symbol : String}

/-- An operator that exists is applied to a value. -/
theorem settles_unary (hop : (UnaryOp.ofSymbol? symbol).isSome = true) {d : Datum}
    (hd : d.IsValue) : Settles s.width b (fun _ => True) (unary s symbol d) := by
  obtain ⟨op, hop⟩ := Option.isSome_iff_exists.1 hop
  obtain ⟨v, rfl⟩ := hd
  rw [unary_eq, hop]
  exact (settles_prepare s _).bind fun _ _ =>
    settles_lift (op.apply_failsOnly s.width v) fun _ _ => trivial

theorem settles_binary (hop : (BinaryOp.ofSymbol? symbol).isSome = true) {l r : Datum}
    (hl : l.IsValue) (hr : r.IsValue) :
    Settles s.width b (fun _ => True) (binary s symbol l r) := by
  obtain ⟨op, hop⟩ := Option.isSome_iff_exists.1 hop
  obtain ⟨x, rfl⟩ := hl
  obtain ⟨y, rfl⟩ := hr
  rw [binary_eq, hop]
  exact (settles_prepare s _).bind fun _ _ =>
    settles_lift (op.apply_failsOnly s.width x y) fun _ _ => trivial

end Run

/-! ## Trees of a chain -/

namespace Expr

variable {s : Settings} {b : Bindings} {ts rest : List Token} {e left right : Expr}
  {symbol : String}

open Run

theorem settles_unary (hop : (UnaryOp.ofSymbol? symbol).isSome = true)
    (h : Settles s.width b Datum.IsValue (e.evaluate s)) :
    Settles s.width b Datum.IsValue ((Expr.unary symbol e).evaluate s) := by
  rw [evaluate]
  obtain ⟨op, hop'⟩ := Option.isSome_iff_exists.1 hop
  rw [hop']
  exact h.bind fun d hd => (Run.settles_unary hop hd).bind fun v _ => settles_pure ⟨v, rfl⟩

theorem settles_binary (hop : (BinaryOp.ofSymbol? symbol).isSome = true)
    (hl : Settles s.width b Datum.IsValue (left.evaluate s))
    (hr : Settles s.width b Datum.IsValue (right.evaluate s)) :
    Settles s.width b Datum.IsValue ((Expr.binary symbol left right).evaluate s) := by
  rw [evaluate]
  obtain ⟨op, hop'⟩ := Option.isSome_iff_exists.1 hop
  rw [hop']
  exact hl.bind fun l hl => hr.bind fun r hr =>
    (Run.settles_binary hop hl hr).bind fun v _ => settles_pure ⟨v, rfl⟩

/-- On the bindings with which a term or a chain was parsed only its operands can be at fault. -/
theorem Grammar.Term.settles (h : Term b.contains ts e rest) :
    Settles s.width b Datum.IsValue (e.evaluate s) := by
  -- the rules of the grammar are the shapes of the tree, and each checks what its evaluation needs
  induction h with
  | vector => exact settles_pure ⟨_, rfl⟩
  | name ht hb => exact settles_lookup hb
  | unary ht _ _ ih => exact settles_unary (Parse.isUnary_iff.1 ht).2 ih

theorem Grammar.Chain.settles (h : Chain b.contains ts e rest) :
    Settles s.width b Datum.IsValue (e.evaluate s) := by
  induction h with
  | term h => exact h.settles
  | binary _ _ ht _ hright ih => exact settles_binary (Parse.isBinary_iff.1 ht).2 ih hright.settles
  | unary _ _ ht ih => exact settles_unary (Parse.isUnary_iff.1 ht).2 ih

end Expr

/-! ## Assignments -/

open Token Expr.Grammar

/-- What is assigned has a value, and evaluating it changes nothing. -/
theorem Run.evaluate_of_assigned {s : Settings} {m : Machine} {ts rest : List Token} {r : Expr}
    (h : Assigned m.bindings.contains ts r rest) : ∃ v, r.evaluate s m = (.ok (.value v), m) := by
  cases h with
  | number => exact ⟨_, rfl⟩
  | name ht hb rest => exact Run.lookup_of_contains hb

/-- An assignment of a line gives the value that it binds. -/
theorem Run.evaluate_assign {s : Settings} {m : Machine} {ts rest : List Token} {x : String}
    {r : Expr} (hx : x ≠ "") (hr : Assigned m.bindings.contains ts r rest) :
    ∃ v m', (Expr.assign x r).evaluate s m = (.ok (.value v), m') := by
  obtain ⟨v, hv⟩ := Run.evaluate_of_assigned (s := s) hr
  have hassign : (Expr.assign x r).evaluate s m =
      (r.evaluate s >>= fun d => Run.assign x d) m := rfl
  rw [Reader.run_bind_of_ok hv] at hassign
  rcases Run.assign_value x v m with ⟨hempty, -⟩ | ⟨m', hm', -⟩
  · exact absurd hempty hx
  · exact ⟨v, m', hassign.trans hm'⟩

/-! ## Lines -/

variable {s : Settings} {source : String} {m : Machine} {e : Expr}

/-- The tree of a line is an assignment that gives a value, or the tree of a chain, of which only the
operands can be at fault. -/
theorem Expr.evaluate_cases (h : Expr.parse s m.bindings source = .ok e) :
    (∃ x r v m', e = .assign x r ∧ e.evaluate s m = (.ok (.value v), m')) ∨
      e.assigns = false ∧ Run.Settles s.width m.bindings Datum.IsValue (e.evaluate s) := by
  cases Expr.line_of_parse h with
  | chain hgap hchain hend => exact .inr ⟨hchain.not_assigns, hchain.settles⟩
  | @assign x _ _ _ _ _ _ r hgap hx hgap' ha hgap'' hr hend =>
    -- the empty name cannot be bound, but no token before the end is empty
    have hname : x.text ≠ "" :=
      (tiles_tokenize source).text_ne_empty (hgap.suffix.mem List.mem_cons_self)
        (Expr.Parse.ne_of_kind hx (by decide))
    obtain ⟨v, m', hv⟩ := Run.evaluate_assign (s := s) hname hr
    exact .inl ⟨x.text, r, v, m', rfl, hv⟩

/-- A line that ends in a fault ends in that of the parser, or operands are at fault. -/
theorem Machine.fault_of_evaluateLine {f : Fault} (h : (m.evaluateLine s source).1 = .error f) :
    Expr.parse s m.bindings source = .error f ∨ OperandFault s.width f := by
  rcases Run.parse_cases s source m with ⟨e, hparse, hrun⟩ | ⟨f', m', hparse, hrun, -⟩
  · right
    rw [Machine.evaluateLine_of_parse hrun] at h
    rcases Expr.evaluate_cases hparse with ⟨x, r, v, m', -, hv⟩ | ⟨-, hsettles⟩
    · rw [Reader.run_bind_of_ok hv] at h
      cases h
    · obtain ⟨-, hfault, -⟩ := (hsettles.bind fun d hd => Run.settles_expect hd) m rfl
      exact hfault f h
  · left
    have hfault : m.evaluateLine s source = (.error f', m') := Reader.run_bind_of_error hrun _
    rw [hfault] at h
    cases h
    exact hparse

/-- A name that the parser does not find bound is an identifier of the line. -/
theorem Expr.undefined_of_parse {b : Bindings} {name : Host}
    (h : Expr.parse s b source = .error (.undefined name)) :
    ∃ t ∈ tokenize source, t.kind = .identifier ∧ name = .text t.text ∧
      b.contains t.text = false := by
  rcases Expr.blamed_of_parse h with ⟨-, hcapacity⟩ | hblamed
  · cases hcapacity
  · generalize hf : Fault.undefined name = f at hblamed
    cases hblamed with
    | problem ht hp expected =>
      rw [Expr.Parse.faultAt] at hf
      split at hf <;> cases hf
    | @name t ht hkind hb =>
      cases hf
      exact ⟨t, ht, hkind, rfl, hb⟩
    | digits => cases hf
    | refused ht hrefused =>
      rw [Cursor.refusal_of_twice hrefused] at hf
      cases hf

/-- What a line denotes evaluates to a value unless operands are at fault, and an assignment always
does. So a name is reported as undefined by the parser only, for an identifier of the line that is not
bound. -/
theorem Expr.evaluate_of_parse (s : Settings) (source : String) (m : Machine) :
    (∀ e, Expr.parse s m.bindings source = .ok e →
      ((∃ v, (e.evaluate s m).1 = .ok (.value v)) ∨
        ∃ f, (e.evaluate s m).1 = .error f ∧ OperandFault s.width f) ∧
      ∀ x r, e = .assign x r → ∃ v, (e.evaluate s m).1 = .ok (.value v)) ∧
    ∀ name, (m.evaluateLine s source).1 = .error (.undefined name) →
      Expr.parse s m.bindings source = .error (.undefined name) ∧
        ∃ t ∈ tokenize source, t.kind = .identifier ∧ name = .text t.text ∧
          m.bindings.contains t.text = false := by
  refine ⟨fun e he => ?_, fun name hname => ?_⟩
  · rcases Expr.evaluate_cases he with ⟨x, r, v, m', -, hv⟩ | ⟨hnot, hsettles⟩
    · have hvalue : ∃ v, (e.evaluate s m).1 = .ok (.value v) := ⟨v, by rw [hv]⟩
      exact ⟨.inl hvalue, fun _ _ _ => hvalue⟩
    · obtain ⟨-, hfault, hvalue⟩ := hsettles m rfl
      refine ⟨?_, fun x r hassign => ?_⟩
      · cases hrun : (e.evaluate s m).1 with
        | error f => exact .inr ⟨f, rfl, hfault f hrun⟩
        | ok d =>
          obtain ⟨v, rfl⟩ := hvalue d hrun
          exact .inl ⟨v, rfl⟩
      · rw [hassign] at hnot
        cases hnot
  · rcases Machine.fault_of_evaluateLine hname with hparse | hoperands
    · exact ⟨hparse, Expr.undefined_of_parse hparse⟩
    · cases hoperands

/-- Vectors of two and of three items are not added, and the parser stops at a name that is not
bound. -/
theorem Expr.evaluate_sums :
    (∃ f, (Machine.new.evaluateLine .default "1 2 + 3 4 5").1 = .error f ∧ OperandFault .bits64 f) ∧
      ∃ t ∈ tokenize "1 + x", t.kind = .identifier ∧ t.text = "x" := by
  constructor
  · have hparse : Expr.parse .default .empty "1 2 + 3 4 5" =
        .ok (.binary "+" (.literal (.value (.vector ⟨[1, 2], by decide⟩)))
          (.literal (.value (.vector ⟨[3, 4, 5], by decide⟩)))) := by
      decide +kernel
    have hrun : ((Expr.binary "+" (.literal (.value (.vector ⟨[1, 2], by decide⟩)))
        (.literal (.value (.vector ⟨[3, 4, 5], by decide⟩)))).evaluate .default .new).1 =
          .error (.unsupported (.lengthMismatch "+" 2 3)) := by
      decide +kernel
    refine ⟨.unsupported (.lengthMismatch "+" 2 3), by decide +kernel, ?_⟩
    rcases ((evaluate_of_parse .default "1 2 + 3 4 5" .new).1 _ hparse).1 with
      ⟨v, hv⟩ | ⟨f, hf, hfault⟩
    · cases hrun.symm.trans hv
    · cases hrun.symm.trans hf
      exact hfault
  · obtain ⟨-, t, ht, hkind, hname, -⟩ :=
      (evaluate_of_parse .default "1 + x" .new).2 (.text "x") (by decide +kernel)
    exact ⟨t, ht, hkind, (Host.text.inj hname).symm⟩

end VectorCalc
