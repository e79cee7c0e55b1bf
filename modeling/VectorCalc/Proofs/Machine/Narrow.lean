import VectorCalc.Proofs.Machine.Coupled

/-!
# Words of 32 bits

A sum, a difference or a product of words is the exact result but for multiples of two to the power of
the width. So words of 32 bits go along with words of 64 bits as long as lines ask for nothing else:
both agree in their low 32 bits all the way, although the machine of 32 bits wraps more often, and also
where integers that are no words of 32 bits pass by without being operands.

What the machine of 32 bits alone refuses is such an integer in an operand.
-/

namespace VectorCalc

open Token

/-! ## The low bits -/

/-- The integers have the same low 32 bits. -/
def AgreeLow (x y : Int64) : Prop := x.toInt ≡ y.toInt [ZMOD 2 ^ 32]

/-- What is kept of a number has its low bits, at either width. -/
theorem Width.wrap_modEq (w : Width) (n : Int) : (w.wrap n).toInt ≡ n [ZMOD 2 ^ 32] := by
  cases w with
  | bits64 =>
    have h : (Int64.ofInt n).toInt ≡ n [ZMOD 2 ^ 64] := by
      rw [Int64.toInt_ofInt]
      exact Int.bmod_emod
    exact h.of_dvd (by norm_num)
  | bits32 =>
    show (Int32.ofInt n).toInt64.toInt ≡ n [ZMOD 2 ^ 32]
    rw [Int32.toInt_toInt64, Int32.toInt_ofInt]
    exact Int.bmod_emod

/-- The symbols of the operators whose results depend on more than the low bits of the operands. -/
def highSymbols : List String := ["**", "min", "max"]

/-- The low bits of the operands decide about the low bits of a sum, a difference or a product. -/
theorem BinaryOp.agreeLow_combine {w w' : Width} {op : BinaryOp} (hop : op.symbol ∉ highSymbols)
    {x x' y y' : Int64} (hx : AgreeLow x x') (hy : AgreeLow y y') :
    AgreeLow (op.combine w x y) (op.combine w' x' y') := by
  cases op with
  | add => exact ((w.wrap_modEq _).trans (hx.add hy)).trans (w'.wrap_modEq _).symm
  | subtract => exact ((w.wrap_modEq _).trans (hx.sub hy)).trans (w'.wrap_modEq _).symm
  | multiply => exact ((w.wrap_modEq _).trans (hx.mul hy)).trans (w'.wrap_modEq _).symm
  | power => exact absurd (by decide) hop
  | minimum => exact absurd (by decide) hop
  | maximum => exact absurd (by decide) hop

theorem Width.widens_agreeLow (w : Width) : w.Widens AgreeLow fun op => op.symbol ∉ highSymbols where
  refl n := Int.ModEq.refl n.toInt
  combine hop _ _ _ _ hx hy := BinaryOp.agreeLow_combine hop hx hy
  add := by decide
  multiply := by decide

/-! ## Operators of a line -/

namespace Expr.Grammar

variable {bound : String → Bool} {A : BinaryOp → Prop} {ts rest : List Token} {e : Expr}

/-- The operators of these tokens are among those of `A`. -/
def Allows (A : BinaryOp → Prop) (ts : List Token) : Prop :=
  ∀ t ∈ ts, t.kind = .operator → ∀ op, BinaryOp.ofSymbol? t.text = some op → A op

theorem Term.usesOnly (h : Term bound ts e rest) : e.UsesOnly A := by
  induction h with
  | vector => trivial
  | name => trivial
  | unary _ _ _ ih => exact ih

/-- The binary operators of a tree are tokens of its chain. -/
theorem Chain.usesOnly (h : Chain bound ts e rest) (hA : Allows A ts) : e.UsesOnly A := by
  induction h with
  | term h => exact h.usesOnly
  | @binary t ts us vs ws rest left right hleft hgap ht _ hright ih =>
    have hmem : t ∈ ts := (hgap.suffix.trans hleft.suffix).mem List.mem_cons_self
    exact ⟨hA t hmem (Parse.isBinary_iff.1 ht).1, ih hA, hright.usesOnly⟩
  | unary _ _ _ ih => exact ih hA

end Expr.Grammar

theorem Expr.usesOnly_of_parse {A : BinaryOp → Prop} {s : Settings} {b : Bindings} {source : String}
    {e : Expr} (h : Expr.parse s b source = .ok e) (hA : Grammar.Allows A (tokenize source)) :
    e.UsesOnly A := by
  cases Expr.line_of_parse h with
  | chain hgap hchain => exact hchain.usesOnly fun t ht => hA t (hgap.suffix.mem ht)
  | assign _ _ _ _ _ hr =>
    cases hr with
    | number => trivial
    | name => trivial

/-! ## Operands that are too large -/

/-- The operands of the operators of a tree. -/
def Expr.operands : Expr → List Expr
  | .unary _ operand => operand :: operand.operands
  | .binary _ left right => left :: right :: (left.operands ++ right.operands)
  | .assign _ value => value.operands
  | .literal _ | .ref _ | .foreign _ => []

/-- With these bindings the tree evaluates to the value. -/
def Expr.Gives (s : Settings) (b : Bindings) (e : Expr) (v : Value) : Prop :=
  ∃ m : Machine, m.bindings = b ∧ (e.evaluate s m).1 = .ok (.value v)

/-- If a value is refused for its size, then it is one of these. -/
def Blames (vs : List Value) (f : Fault) : Prop :=
  ∀ v bits, f = .unsupported (.doesNotFit v bits) → v ∈ vs

theorem Width.admit_blames {vs : List Value} {v : Value} (w : Width) (h : v ∈ vs) :
    FailsOnly (Blames vs) <| w.admit v := by
  unfold Width.admit
  split
  · exact failsOnly_ok _
  · refine failsOnly_error fun v' bits hf => ?_
    cases hf
    exact h

theorem BinaryOp.apply_blames (w : Width) (op : BinaryOp) (left right : Value) :
    FailsOnly (Blames [left, right]) (op.apply w left right) := by
  have hleft : left ∈ [left, right] := List.mem_cons_self
  have hright : right ∈ [left, right] := List.mem_cons_of_mem _ List.mem_cons_self
  unfold BinaryOp.apply BinaryOp.applyWith
  split
  · exact (w.admit_blames hleft).bind fun _ _ => (w.admit_blames hright).bind fun _ _ =>
      failsOnly_ok _
  · split_ifs
    · exact failsOnly_error nofun
    · exact (w.admit_blames hleft).bind fun _ _ => (w.admit_blames hright).bind fun _ _ =>
        failsOnly_ok _
  · exact failsOnly_error nofun

theorem UnaryOp.apply_blames (w : Width) (op : UnaryOp) (v : Value) :
    FailsOnly (Blames [v]) (op.apply w v) := by
  cases v with
  | int n => exact failsOnly_ok _
  | vector v => exact (w.admit_blames List.mem_cons_self).bind fun _ _ => failsOnly_ok _

namespace Run

variable {α β : Type} {s : Settings} {m : Machine} {symbol : String} {v : Value} {bits : Nat}

/-- A sequence fails in its first part, or in its second part on the machine after the first. -/
theorem fault_of_bind {x : Run α} {k : α → Run β} {f : Fault} (h : ((x >>= k) m).1 = .error f) :
    (x m).1 = .error f ∨ ∃ a m', x m = (.ok a, m') ∧ (k a m').1 = .error f := by
  rw [Reader.run_bind] at h
  rcases hrun : x m with ⟨f' | a, m'⟩
  · rw [hrun] at h
    cases h
    exact .inl rfl
  · rw [hrun] at h
    exact .inr ⟨a, m', rfl, h⟩

theorem operand_of_unary {d : Datum}
    (h : (unary s symbol d m).1 = .error (.unsupported (.doesNotFit v bits))) : d = .value v := by
  rw [unary_eq] at h
  cases hsymbol : UnaryOp.ofSymbol? symbol with
  | none =>
    rw [hsymbol] at h
    cases h
  | some op =>
    rw [hsymbol] at h
    have hop : op.applyDatum s.width (op.combine s.width) d =
        .error (.unsupported (.doesNotFit v bits)) := h
    cases d with
    | value v' => rw [List.mem_singleton.1 (op.apply_blames s.width v' _ hop v bits rfl)]
    | foreign => cases hop

theorem operand_of_binary {l r : Datum}
    (h : (binary s symbol l r m).1 = .error (.unsupported (.doesNotFit v bits))) :
    l = .value v ∨ r = .value v := by
  rw [binary_eq] at h
  cases hsymbol : BinaryOp.ofSymbol? symbol with
  | none =>
    rw [hsymbol] at h
    cases h
  | some op =>
    rw [hsymbol] at h
    have hop : op.applyData s.width (op.combine s.width) l r =
        .error (.unsupported (.doesNotFit v bits)) := h
    cases l with
    | foreign => cases hop
    | value x =>
      cases r with
      | foreign => cases hop
      | value y =>
        have hmem := op.apply_blames s.width x y _ hop v bits rfl
        simpa [eq_comm] using hmem

end Run

/-- A value that is refused for its size is what an operand has evaluated to. -/
theorem Expr.operand_of_evaluate {s : Settings} {m : Machine} {e : Expr} {v : Value} {bits : Nat}
    (he : e.assigns = false)
    (h : (e.evaluate s m).1 = .error (.unsupported (.doesNotFit v bits))) :
    ∃ o ∈ e.operands, o.Gives s m.bindings v := by
  induction e generalizing m with
  | literal d => cases h
  | foreign kind => cases h
  | assign name value => cases he
  | ref name =>
    have hlookup : (m.bindings.lookup (.text name)).map Datum.value =
      .error (.unsupported (.doesNotFit v bits)) := h
    rw [Bindings.lookup_text] at hlookup
    -- an unbound name is a fault of its own
    cases hget : m.bindings.get? name with
    | none =>
      rw [hget] at hlookup
      cases hlookup
    | some v =>
      rw [hget] at hlookup
      cases hlookup
  | unary symbol operand ih =>
    rw [evaluate] at h
    cases hsymbol : UnaryOp.ofSymbol? symbol with
    | none =>
      rw [hsymbol] at h
      cases h
    | some op =>
      rw [hsymbol] at h
      rcases Run.fault_of_bind h with hoperand | ⟨d, m', hd, h⟩
      · obtain ⟨o, ho, hgives⟩ := ih he hoperand
        exact ⟨o, List.mem_cons_of_mem _ ho, hgives⟩
      · rcases Run.fault_of_bind h with hop | ⟨_, _, _, h⟩
        · cases Run.operand_of_unary hop
          exact ⟨operand, List.mem_cons_self, m, rfl, by rw [hd]⟩
        · cases h
  | binary symbol left right ihl ihr =>
    obtain ⟨hleft, hright⟩ := Bool.or_eq_false_iff.1 he
    rw [evaluate] at h
    cases hsymbol : BinaryOp.ofSymbol? symbol with
    | none =>
      rw [hsymbol] at h
      cases h
    | some op =>
      rw [hsymbol] at h
      rcases Run.fault_of_bind h with hl | ⟨l, m', hl, h⟩
      · obtain ⟨o, ho, hgives⟩ := ihl hleft hl
        exact ⟨o, by simp [operands, ho], hgives⟩
      · -- the right operand is evaluated on the same bindings
        have hm' : m'.bindings = m.bindings := by
          have := Run.keeps_evaluate s hleft m
          rwa [hl] at this
        rcases Run.fault_of_bind h with hr | ⟨r, m'', hr, h⟩
        · obtain ⟨o, ho, hgives⟩ := ihr hright hr
          exact ⟨o, by simp [operands, ho], hm' ▸ hgives⟩
        · rcases Run.fault_of_bind h with hop | ⟨_, _, _, h⟩
          · rcases Run.operand_of_binary hop with rfl | rfl
            · exact ⟨left, by simp [operands], m, rfl, by rw [hl]⟩
            · exact ⟨right, by simp [operands], m', hm', by rw [hr]⟩
          · cases h

/-! ## Lines at both widths -/

/-- The settings with words of this width. -/
def Settings.withWidth (s : Settings) (w : Width) : Settings := { s with width := w }

variable {s : Settings} {source : String} {m : Machine}

/-- The fault names an operand of the line that is no word of 32 bits. -/
def Machine.OperandTooLarge (s : Settings) (source : String) (m : Machine) (f : Fault) : Prop :=
  ∃ e o v, Expr.parse s m.bindings source = .ok e ∧ o ∈ e.operands ∧
    o.Gives (s.withWidth .bits32) m.bindings v ∧
    (∃ n ∈ v.toList, Width.bits32.fits n.toInt = false) ∧ f = .unsupported (.doesNotFit v 32)

/-- The parser applies no operator. -/
theorem Expr.parse_ne_unsupported (s : Settings) (b : Bindings) (source : String)
    (cause : Unsupported) : Expr.parse s b source ≠ .error (.unsupported cause) := by
  intro h
  rcases Expr.blamed_of_parse h with ⟨-, hcapacity⟩ | hblamed
  · cases hcapacity
  · generalize hf : Fault.unsupported cause = f at hblamed
    cases hblamed with
    | problem =>
      rw [Expr.Parse.faultAt] at hf
      split at hf <;> cases hf
    | name => cases hf
    | digits => cases hf
    | refused _ hrefused =>
      rw [Cursor.refusal_of_twice hrefused] at hf
      cases hf

/-- What is refused for its size is an operand of the line, and an assignment has none. -/
theorem Machine.operand_of_rejects {f : Fault}
    (h : (m.evaluateLine (s.withWidth .bits32) source).1 = .error f)
    (hf : Width.bits32.Rejects f) : OperandTooLarge s source m f := by
  obtain ⟨v, rfl, hn⟩ := hf
  rcases Run.parse_cases (s.withWidth .bits32) source m with ⟨e, he, hrun⟩ | ⟨f', m₁, hf', hrun, -⟩
  · rw [Machine.evaluateLine_of_parse hrun] at h
    rcases Run.fault_of_bind h with heval | ⟨d, m₁, -, hexpect⟩
    · rcases Expr.evaluate_cases he with ⟨x, r, v', m', -, hv'⟩ | ⟨hassigns, -⟩
      · rw [hv'] at heval
        cases heval
      · obtain ⟨o, ho, hgives⟩ := Expr.operand_of_evaluate hassigns heval
        exact ⟨e, o, v, he, ho, hgives, hn, rfl⟩
    · -- at the end of a line only data of a host are refused
      cases d with
      | value => cases hexpect
      | foreign => cases hexpect
  · have hfault : m.evaluateLine (s.withWidth .bits32) source = (.error f', m₁) :=
      Reader.run_bind_of_error hrun _
    rw [hfault] at h
    cases h
    exact absurd hf' (Expr.parse_ne_unsupported _ _ _ _)

/-- Words of 32 bits go along with words of 64 bits on every line without a power, a minimum or a
maximum. If the machine of 32 bits gives a value, then the other one gives a value of the same shape
whose integers have the same low 32 bits. If it fails, then the other one fails in the same way, unless
an operand of the line is no word of 32 bits; then the fault names that operand. -/
theorem Machine.evaluateLine_narrow (s : Settings) (source : String) {m m' : Machine}
    (hops : ∀ t ∈ tokenize source, t.kind = .operator → t.text ∉ ["**", "min", "max"])
    (hm : m.bindings = m'.bindings) :
    (∀ v, (m.evaluateLine (s.withWidth .bits32) source).1 = .ok v →
      ∃ v', (m'.evaluateLine (s.withWidth .bits64) source).1 = .ok v' ∧ v.Related AgreeLow v') ∧
    ∀ f, (m.evaluateLine (s.withWidth .bits32) source).1 = .error f →
      (m'.evaluateLine (s.withWidth .bits64) source).1 = .error f ∨
        OperandTooLarge s source m f := by
  have hallows : Expr.Grammar.Allows (fun op => op.symbol ∉ highSymbols) (tokenize source) := by
    intro t ht hkind op hop
    rw [← BinaryOp.ofSymbol?_eq_some_iff.1 hop]
    exact hops t ht hkind
  have hb : m.bindings.Related AgreeLow m'.bindings := by
    rw [← hm]
    exact .refl (fun n => Int.ModEq.refl n.toInt) _
  have hwidens : (s.withWidth .bits32).width.Widens AgreeLow fun op => op.symbol ∉ highSymbols :=
    Width.widens_agreeLow _
  have hwide : (s.withWidth .bits64).width = .bits64 := rfl
  have hfollows := (Machine.inStep_evaluateLine hwidens hwide rfl source
    (fun _ _ he => Expr.usesOnly_of_parse he hallows) hb).follows
  refine ⟨fun v hv => hfollows.of_ok hv, fun f hf => ?_⟩
  rcases hfollows.of_error hf with hsame | hrejects
  · exact .inl hsame
  · exact .inr (Machine.operand_of_rejects hf hrejects)

/-- The product of nine and a thousand million is too large for words of 32 bits, which keep its low
bits. Three thousand million is too large for an operand. -/
theorem Machine.evaluateLine_narrow_millions :
    (∃ v', (new.evaluateLine (Settings.default.withWidth .bits64) "9 * 1000000000").1 = .ok v' ∧
      (Value.int 410065408).Related AgreeLow v') ∧
    OperandTooLarge .default "1 - 3000000000" new
      (.unsupported (.doesNotFit (.int 3000000000) 32)) := by
  constructor
  · exact (evaluateLine_narrow .default "9 * 1000000000" (by decide +kernel) rfl).1 _
      (by decide +kernel)
  · have hnarrow : (new.evaluateLine (Settings.default.withWidth .bits32) "1 - 3000000000").1 =
        .error (.unsupported (.doesNotFit (.int 3000000000) 32)) := by
      decide +kernel
    have hwide : (new.evaluateLine (Settings.default.withWidth .bits64) "1 - 3000000000").1 =
        .ok (.int (-2999999999)) := by
      decide +kernel
    rcases (evaluateLine_narrow .default "1 - 3000000000" (by decide +kernel) rfl).2 _ hnarrow with
      hsame | hlarge
    · cases hwide.symm.trans hsame
    · exact hlarge

end VectorCalc
