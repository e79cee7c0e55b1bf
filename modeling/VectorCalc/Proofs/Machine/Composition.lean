import VectorCalc.Proofs.Expr.Spacing
import VectorCalc.Proofs.Machine.Progress

/-!
# Lines that grow on the right

A line that is a chain may be continued by a binary operator and a term, or by a unary operator, with
spaces between them. The tree of the longer line has the tree of the shorter one on its left, whatever
that ends with, and so the longer line is evaluated as the shorter one first, then the term, and then
the operator (`Machine.evaluateLine_link`). A chain of any length is therefore a fold over its links.
-/

namespace VectorCalc

open Token

/-! ## Texts -/

namespace Expr.Grammar

variable {bound : String → Bool} {source term : String} {e l r : Expr} {ts rest : List Token}
  {back : List Glyph} {X : List Token → List Token → Prop}

/-- `X` holds of the whole line, with spaces around it. -/
def Fills (X : List Token → List Token → Prop) (source : String) : Prop :=
  ∃ us rest, Gap (tokenize source) us ∧ X us rest ∧ End rest

/-- The line is a chain. -/
def ChainLine (bound : String → Bool) (source : String) (e : Expr) : Prop :=
  Fills (fun ts rest => Chain bound ts e rest) source

/-- The line is a single term: a number or a vector, a name, or a unary operator and such a term. -/
def TermLine (bound : String → Bool) (source : String) (e : Expr) : Prop :=
  Fills (fun ts rest => Term bound ts e rest) source

theorem TermLine.chainLine (h : TermLine bound source e) : ChainLine bound source e := by
  obtain ⟨us, rest, hgap, hterm, hend⟩ := h
  exact ⟨us, rest, hgap, .term hterm, hend⟩

/-- A part that is the whole of a line is found again where its letters stand in front, unless what
follows goes on with a number. -/
theorem Fills.append (h : Fills X source)
    (hX : ∀ ts rest, Regular ts → X ts rest → rest <:+ ts ∧ ByGlyphs (Spaced X) ts rest)
    (hreg : Regular ts) (hts : glyphs ts = letters source ++ back) (hback : Closed back) :
    ∃ us rest, Gap ts us ∧ X us rest ∧ rest <:+ ts ∧ glyphs rest = back := by
  obtain ⟨us, rest, hgap, hx, hend⟩ := h
  have hus := (regular_tokenize source).suffix hgap.suffix
  obtain ⟨hsuffix, hglyphs⟩ := hX us rest hus hx
  obtain ⟨front, hfront, hmove⟩ := hglyphs.gap hgap
  obtain ⟨g, hg, -⟩ := (end_iff_glyphs (hus.suffix hsuffix)).1 hend
  -- behind the part there is the end only, so the part has all letters
  rw [glyphs_tokenize, hg] at hfront
  have hletters : letters source = front := (List.append_inj' hfront rfl).1
  rw [hletters] at hts
  obtain ⟨rest', hsuffix', ⟨us', hgap', hx'⟩, hrest'⟩ := hmove ts back hreg hts fun _ => hback
  exact ⟨us', rest', hgap', hx', hsuffix', hrest'⟩

theorem ChainLine.append (h : ChainLine bound source e) (hreg : Regular ts)
    (hts : glyphs ts = letters source ++ back) (hback : Closed back) :
    ∃ us rest, Gap ts us ∧ Chain bound us e rest ∧ rest <:+ ts ∧ glyphs rest = back :=
  Fills.append h (fun _ _ hreg hchain => ⟨hchain.suffix, hchain.byGlyphs hreg⟩) hreg hts hback

theorem TermLine.append (h : TermLine bound source e) (hreg : Regular ts)
    (hts : glyphs ts = letters source ++ back) (hback : Closed back) :
    ∃ us rest, Gap ts us ∧ Term bound us e rest ∧ rest <:+ ts ∧ glyphs rest = back :=
  Fills.append h (fun _ _ hreg hterm => ⟨hterm.suffix, hterm.byGlyphs hreg⟩) hreg hts hback

/-- Neither an operator without a number directly behind it nor the end goes on with a number. -/
theorem closed_cons {g : Glyph} (hkind : g.lexeme.kind ≠ .number) (hsigns : g.signs = false)
    (gs : List Glyph) : Closed (g :: gs) := by
  intro g' hg'
  cases hg'
  exact ⟨hkind, hsigns⟩

theorem end_of_final (hreg : Regular ts) (h : glyphs ts = [Glyph.final]) : End ts :=
  (end_iff_glyphs hreg).2 ⟨.final, h, rfl⟩

/-- A chain with a binary operator and a term behind it. -/
theorem ChainLine.binary (hl : ChainLine bound source l) (op : BinaryOp)
    (hr : TermLine bound term r) :
    ChainLine bound (source ++ " " ++ op.symbol ++ " " ++ term) (.binary op.symbol l r) := by
  have hop : op.symbol ∈ operators := by
    cases op <;> decide
  have hreg := regular_tokenize (source ++ " " ++ op.symbol ++ " " ++ term)
  have hglyphs : glyphs (tokenize (source ++ " " ++ op.symbol ++ " " ++ term)) =
      letters source ++ ⟨⟨.operator, op.symbol⟩, false⟩ :: (letters term ++ [Glyph.final]) := by
    rw [glyphs_tokenize, letters_spaced, letters_spaced, letters_operator hop]
    simp only [List.append_assoc, List.cons_append, List.nil_append]
  obtain ⟨us, rest, hgap, hchain, hsuffix, hrest⟩ :=
    hl.append hreg hglyphs (closed_cons (by simp) rfl _)
  have hreg' := hreg.suffix hsuffix
  obtain ⟨t, vs, hgap', hlexeme, -, hvs⟩ := exists_of_glyphs hreg' hrest
  have hvs' := (hreg'.suffix hgap'.suffix).tail
  obtain ⟨ws, rest', hgap'', hterm, hsuffix', hrest'⟩ :=
    hr.append hvs' hvs (closed_cons (by decide) rfl [])
  have htext : t.text = op.symbol := congrArg Lexeme.text hlexeme
  have ht : Parse.isBinary t = true := by
    refine Parse.isBinary_iff.2 ⟨congrArg Lexeme.kind hlexeme, ?_⟩
    rw [htext, BinaryOp.ofSymbol?_symbol]
    rfl
  have hlonger := Chain.binary hchain hgap' ht hgap'' hterm
  rw [htext] at hlonger
  exact ⟨us, rest', hgap, hlonger, end_of_final (hvs'.suffix hsuffix') hrest'⟩

/-- A chain with a unary operator behind it. -/
theorem ChainLine.unary (h : ChainLine bound source e) (op : UnaryOp) :
    ChainLine bound (source ++ " " ++ op.symbol) (.unary op.symbol e) := by
  have hop : op.symbol ∈ operators := by
    cases op <;> decide
  have hreg := regular_tokenize (source ++ " " ++ op.symbol)
  have hglyphs : glyphs (tokenize (source ++ " " ++ op.symbol)) =
      letters source ++ ⟨⟨.operator, op.symbol⟩, false⟩ :: [Glyph.final] := by
    rw [glyphs_tokenize, letters_spaced, letters_operator hop]
    simp only [List.append_assoc, List.cons_append, List.nil_append]
  obtain ⟨us, rest, hgap, hchain, hsuffix, hrest⟩ :=
    h.append hreg hglyphs (closed_cons (by simp) rfl _)
  have hreg' := hreg.suffix hsuffix
  obtain ⟨t, vs, hgap', hlexeme, -, hvs⟩ := exists_of_glyphs hreg' hrest
  have htext : t.text = op.symbol := congrArg Lexeme.text hlexeme
  have ht : Parse.isUnary t = true := by
    refine Parse.isUnary_iff.2 ⟨congrArg Lexeme.kind hlexeme, ?_⟩
    rw [htext, UnaryOp.ofSymbol?_symbol]
    rfl
  have hlonger := Chain.unary hchain hgap' ht
  rw [htext] at hlonger
  exact ⟨us, vs, hgap, hlonger, end_of_final (hreg'.suffix hgap'.suffix).tail hvs⟩

end Expr.Grammar

open Expr.Grammar

variable {s : Settings} {b : Bindings} {source : String} {e l r : Expr} {m : Machine}

/-- What is parsed and is no assignment is a chain. -/
theorem Expr.chainLine_of_parse (h : Expr.parse s b source = .ok e)
    (he : ∀ x r, e ≠ .assign x r) : ChainLine b.contains source e := by
  cases line_of_parse h with
  | chain hgap hchain hend => exact ⟨_, _, hgap, hchain, hend⟩
  | assign => exact absurd rfl (he _ _)

/-- A line of which the tree has no operator at its root is a single term. -/
theorem Expr.termLine_of_parse (h : Expr.parse s b source = .ok e) (he : ∀ x r, e ≠ .assign x r)
    (hunary : ∀ symbol operand, e ≠ .unary symbol operand)
    (hbinary : ∀ symbol l r, e ≠ .binary symbol l r) : TermLine b.contains source e := by
  obtain ⟨us, rest, hgap, hchain, hend⟩ := chainLine_of_parse h he
  cases hchain with
  | term hterm => exact ⟨us, rest, hgap, hterm, hend⟩
  | binary => exact absurd rfl (hbinary _ _ _)
  | unary => exact absurd rfl (hunary _ _)

theorem Expr.parse_of_chainLine {c : Cursor} (hc : Cursor.ofText? source s.capacity = .ok c)
    (hcap : 2 ≤ s.capacity) (h : ChainLine b.contains source e) : Expr.parse s b source = .ok e := by
  obtain ⟨us, rest, hgap, hchain, hend⟩ := h
  exact parse_of_line hc hcap (.chain hgap hchain hend)

theorem Expr.Grammar.ChainLine.settles (h : ChainLine b.contains source e) :
    Run.Settles s.width b Datum.IsValue (e.evaluate s) := by
  obtain ⟨us, rest, -, hchain, -⟩ := h
  exact hchain.settles

/-! ## Evaluation -/

/-- Evaluate an expression that is to give a value. -/
def Expr.value (s : Settings) (e : Expr) : Run Value := do
  let d ← e.evaluate s
  Run.lift (d.expect "line result")

namespace Expr

open Run

/-- A tree that settles ends in a fault, or it gives a value and keeps the bindings. -/
theorem value_cases (h : Settles s.width b Datum.IsValue (e.evaluate s)) (hm : m.bindings = b) :
    (∃ f m', e.evaluate s m = (.error f, m') ∧ e.value s m = (.error f, m')) ∨
      ∃ v m', e.evaluate s m = (.ok (.value v), m') ∧ e.value s m = (.ok v, m') ∧
        m'.bindings = b := by
  obtain ⟨hb, -, hvalue⟩ := h m hm
  rcases hrun : e.evaluate s m with ⟨f | d, m'⟩
  · exact .inl ⟨f, m', rfl, Reader.run_bind_of_error hrun _⟩
  · rw [hrun] at hb hvalue
    obtain ⟨v, rfl⟩ := hvalue d rfl
    exact .inr ⟨v, m', rfl, Reader.run_bind_of_ok hrun _, hb⟩

/-- A value passes the check at the end of a line. -/
theorem bind_expect (x : Run Value) (m : Machine) :
    (do
      let v ← x
      let d ← (return .value v : Run Datum)
      Run.lift (d.expect "line result") : Run Value) m = x m :=
  congrFun (bind_pure x) m

/-- Both operands are evaluated, the left one first, and then the operator is applied. -/
theorem value_binary (op : BinaryOp) (hl : Settles s.width b Datum.IsValue (l.evaluate s))
    (hr : Settles s.width b Datum.IsValue (r.evaluate s)) (hm : m.bindings = b) :
    (Expr.binary op.symbol l r).value s m =
      (do
        let x ← l.value s
        let y ← r.value s
        Run.binary s op.symbol (.value x) (.value y) : Run Value) m := by
  have hevaluate : (Expr.binary op.symbol l r).evaluate s = (do
      let x ← l.evaluate s
      let y ← r.evaluate s
      return .value (← Run.binary s op.symbol x y)) := by
    rw [evaluate, BinaryOp.ofSymbol?_symbol]
  rw [value, hevaluate, bind_assoc]
  rcases value_cases hl hm with ⟨f, m₁, hrun, hvalue⟩ | ⟨x, m₁, hrun, hvalue, hm₁⟩
  · rw [Reader.run_bind_of_error hvalue, Reader.run_bind_of_error hrun]
  rw [Reader.run_bind_of_ok hvalue, Reader.run_bind_of_ok hrun, bind_assoc]
  rcases value_cases hr hm₁ with ⟨f, m₂, hrun', hvalue'⟩ | ⟨y, m₂, hrun', hvalue', -⟩
  · rw [Reader.run_bind_of_error hvalue', Reader.run_bind_of_error hrun']
  rw [Reader.run_bind_of_ok hvalue', Reader.run_bind_of_ok hrun', bind_assoc]
  exact bind_expect _ m₂

/-- The operand is evaluated, and then the operator is applied. -/
theorem value_unary (op : UnaryOp) (he : Settles s.width b Datum.IsValue (e.evaluate s))
    (hm : m.bindings = b) :
    (Expr.unary op.symbol e).value s m =
      (do
        let v ← e.value s
        Run.unary s op.symbol (.value v) : Run Value) m := by
  have hevaluate : (Expr.unary op.symbol e).evaluate s = (do
      let d ← e.evaluate s
      return .value (← Run.unary s op.symbol d)) := by
    rw [evaluate, UnaryOp.ofSymbol?_symbol]
  rw [value, hevaluate, bind_assoc]
  rcases value_cases he hm with ⟨f, m', hrun, hvalue⟩ | ⟨v, m', hrun, hvalue, -⟩
  · rw [Reader.run_bind_of_error hvalue, Reader.run_bind_of_error hrun]
  rw [Reader.run_bind_of_ok hvalue, Reader.run_bind_of_ok hrun, bind_assoc]
  exact bind_expect _ m'

end Expr

/-- Two sequences of computations run alike if their first parts do and their second parts do after
these. -/
theorem Run.run_bind_congr {α β : Type} {x x' : Run α} {k k' : α → Run β} (hx : x m = x' m)
    (hk : ∀ a m', x m = (.ok a, m') → k a m' = k' a m') : (x >>= k) m = (x' >>= k') m := by
  rw [Reader.run_bind, Reader.run_bind, ← hx]
  rcases hrun : x m with ⟨f | a, m'⟩
  · rfl
  · exact hk a m' hrun

/-- A line of which the tree is known gives the value of the tree. -/
theorem Run.line_of_parse (h : Expr.parse s m.bindings source = .ok e) :
    Run.line s source m = e.value s m :=
  Machine.evaluateLine_of_parse (Run.parse_of_ok h)

/-! ## Links -/

/-- What a chain may be continued by. -/
inductive Link where
  | binary (op : BinaryOp) (term : String)
  | unary (op : UnaryOp)

namespace Link

/-- A link as it is written, with spaces between its parts. -/
def text : Link → String
  | .binary op term => " " ++ op.symbol ++ " " ++ term
  | .unary op => " " ++ op.symbol

/-- What a link does with the value of the line before it: the term is evaluated as a line of its own,
and then the operator is applied. -/
def apply (s : Settings) : Link → Value → Run Value
  | .binary op term, x => do
    let y ← Run.line s term
    Run.binary s op.symbol (.value x) (.value y)
  | .unary op, x => Run.unary s op.symbol (.value x)

/-- What stands behind a binary operator is a single term. -/
def IsSingle (bound : String → Bool) : Link → Prop
  | .binary _ term => ∃ r, TermLine bound term r
  | .unary _ => True

end Link

namespace Machine

/-- A line that is a chain gives the value of its tree, wherever the bindings are the same. -/
theorem line_of_chainLine (hc : (s.capacity : Int) ≤ Cursor.capacityLimit) (hcap : 2 ≤ s.capacity)
    (h : ChainLine b.contains source e) (hm : m.bindings = b) :
    Run.line s source m = e.value s m := by
  have hcursor := Cursor.ofText?_of_le source s.capacity_pos hc
  rw [← hm] at h
  exact Run.line_of_parse (Expr.parse_of_chainLine hcursor hcap h)

/-- A chain with a link behind it is a chain, and it is evaluated before the link is applied. -/
theorem evaluateLine_link (hc : (s.capacity : Int) ≤ Cursor.capacityLimit) (hcap : 2 ≤ s.capacity)
    (h : ChainLine m.bindings.contains source e) (link : Link)
    (hlink : link.IsSingle m.bindings.contains) :
    (∃ e', ChainLine m.bindings.contains (source ++ link.text) e') ∧
      m.evaluateLine s (source ++ link.text) = (Run.line s source >>= link.apply s) m := by
  have hsource := line_of_chainLine hc hcap h rfl
  cases link with
  | unary op =>
    have htext : source ++ (Link.unary op).text = source ++ " " ++ op.symbol :=
      (String.append_assoc ..).symm
    have hlonger := h.unary op
    rw [htext]
    refine ⟨⟨_, hlonger⟩, ?_⟩
    calc m.evaluateLine s (source ++ " " ++ op.symbol)
      _ = (Expr.unary op.symbol e).value s m := line_of_chainLine hc hcap hlonger rfl
      _ = (e.value s >>= (Link.unary op).apply s) m := Expr.value_unary op h.settles rfl
      _ = (Run.line s source >>= (Link.unary op).apply s) m :=
        Run.run_bind_congr hsource.symm fun _ _ _ => rfl
  | binary op term =>
    obtain ⟨r, hr⟩ := hlink
    have htext : source ++ (Link.binary op term).text =
        source ++ " " ++ op.symbol ++ " " ++ term := by
      simp only [Link.text, String.append_assoc]
    have hlonger := h.binary op hr
    rw [htext]
    refine ⟨⟨_, hlonger⟩, ?_⟩
    calc m.evaluateLine s (source ++ " " ++ op.symbol ++ " " ++ term)
      _ = (Expr.binary op.symbol e r).value s m := line_of_chainLine hc hcap hlonger rfl
      _ = (do
            let x ← e.value s
            let y ← r.value s
            Run.binary s op.symbol (.value x) (.value y) : Run Value) m :=
        Expr.value_binary op h.settles hr.chainLine.settles rfl
      _ = (Run.line s source >>= (Link.binary op term).apply s) m := by
        refine Run.run_bind_congr hsource.symm fun x m₁ hx => ?_
        -- the term is parsed on the bindings that the line before it has left
        have hm₁ : m₁.bindings = m.bindings := by
          rcases Expr.value_cases h.settles rfl with ⟨f, m', -, hf⟩ | ⟨x', m', -, hx', hm'⟩
          · cases hx.symm.trans hf
          · cases hx.symm.trans hx'
            exact hm'
        have hterm := line_of_chainLine hc hcap hr.chainLine hm₁
        exact Run.run_bind_congr hterm.symm fun _ _ _ => rfl

/-- A chain with links behind it is evaluated link by link, from the left to the right. -/
theorem evaluateLine_links (hc : (s.capacity : Int) ≤ Cursor.capacityLimit) (hcap : 2 ≤ s.capacity)
    {links : List Link} (h : ChainLine m.bindings.contains source e)
    (hlinks : ∀ link ∈ links, link.IsSingle m.bindings.contains) :
    m.evaluateLine s (links.foldl (fun line link => line ++ link.text) source) =
      (Run.line s source >>= fun v => links.foldlM (fun v link => link.apply s v) v) m := by
  induction links generalizing source e with
  | nil => exact congrFun (bind_pure (Run.line s source)).symm m
  | cons link links ih =>
    obtain ⟨hlink, hlinks⟩ := List.forall_mem_cons.1 hlinks
    obtain ⟨⟨e', hlonger⟩, hline⟩ := evaluateLine_link hc hcap h link hlink
    calc m.evaluateLine s ((link :: links).foldl (fun line link => line ++ link.text) source)
      _ = (Run.line s (source ++ link.text) >>= fun v =>
            links.foldlM (fun v link => link.apply s v) v) m := ih hlonger hlinks
      _ = ((Run.line s source >>= link.apply s) >>= fun v =>
            links.foldlM (fun v link => link.apply s v) v) m :=
        Run.run_bind_congr hline fun _ _ _ => rfl
      _ = (Run.line s source >>= fun v =>
            (link :: links).foldlM (fun v link => link.apply s v) v) m := by
        rw [bind_assoc]
        rfl

/-- Behind a line that is a chain, a binary operator and a term are evaluated as the line, then the term
as a line of its own, and then the operator on both values; the first fault that is met on this way is
the fault of the whole. A unary operator behind the line is applied to its value. So a chain of any
length is folded from the left, and all operators count the same. -/
theorem evaluateLine_composed (hcap : 2 ≤ s.capacity)
    (h : Expr.parse s m.bindings source = .ok e) (he : ∀ x r, e ≠ .assign x r) :
    (∀ (op : BinaryOp) (term : String) (r : Expr), TermLine m.bindings.contains term r →
      m.evaluateLine s (source ++ " " ++ op.symbol ++ " " ++ term) =
        (do
          let x ← Run.line s source
          let y ← Run.line s term
          Run.binary s op.symbol (.value x) (.value y) : Run Value) m) ∧
    (∀ op : UnaryOp,
      m.evaluateLine s (source ++ " " ++ op.symbol) =
        (do
          let x ← Run.line s source
          Run.unary s op.symbol (.value x) : Run Value) m) ∧
    ∀ links : List Link, (∀ link ∈ links, link.IsSingle m.bindings.contains) →
      m.evaluateLine s (links.foldl (fun line link => line ++ link.text) source) =
        (do
          let x ← Run.line s source
          links.foldlM (fun x link => link.apply s x) x : Run Value) m := by
  obtain ⟨c, hcursor⟩ := Expr.exists_cursor h
  have hc := Expr.le_capacityLimit hcursor
  have hchain := Expr.chainLine_of_parse h he
  refine ⟨fun op term r hr => ?_, fun op => ?_, fun links => evaluateLine_links hc hcap hchain⟩
  · have hlink := (evaluateLine_link hc hcap hchain (.binary op term) ⟨r, hr⟩).2
    simp only [Link.text, ← String.append_assoc] at hlink
    exact hlink
  · have hlink := (evaluateLine_link hc hcap hchain (.unary op) trivial).2
    simp only [Link.text, ← String.append_assoc] at hlink
    exact hlink

/-- Behind a reduced vector and a space the minus sign of `-3` is a sign and the other one is not. -/
theorem evaluateLine_composed_sums :
    (new.evaluateLine .default "1 -2 3 +/\t - -3 ").1 = .ok (.int 5) ∧
      (new.evaluateLine .default "1 -2 3 +/\t - -3  min 4 +\\").1 = .ok (.int 4) := by
  have hsource : Expr.parse .default new.bindings "1 -2 3 +/\t" =
      .ok (.unary "+/" (.literal (.value (.vector ⟨[1, -2, 3], by decide⟩)))) := by
    decide +kernel
  have hminus : TermLine new.bindings.contains "-3 " (.literal (.value (.int (-3)))) :=
    Expr.termLine_of_parse (s := .default) (by decide +kernel) nofun nofun nofun
  have hfour : TermLine new.bindings.contains "4" (.literal (.value (.int 4))) :=
    Expr.termLine_of_parse (s := .default) (by decide +kernel) nofun nofun nofun
  obtain ⟨hbinary, -, hfold⟩ :=
    evaluateLine_composed (m := new) (s := .default) (by decide) hsource nofun
  constructor
  · refine (congrArg Prod.fst (hbinary .subtract "-3 " _ hminus)).trans ?_
    decide +kernel
  · have hlinks := hfold [.binary .subtract "-3 ", .binary .minimum "4", .unary .sumScan] (by
      intro link hlink
      simp only [List.mem_cons, List.not_mem_nil, or_false] at hlink
      rcases hlink with rfl | rfl | rfl
      · exact ⟨_, hminus⟩
      · exact ⟨_, hfour⟩
      · trivial)
    refine (congrArg Prod.fst hlinks).trans ?_
    decide +kernel

end Machine

end VectorCalc
