import Mathlib
import VectorCalc.Proofs.Expr.Numeral
import VectorCalc.Proofs.Expr.TokenList
import VectorCalc.Proofs.Token.Regular

/-!
# The grammar of a line

The grammar of the language as inductive relations, which know nothing of the parser. Each relates
the tokens before a part of a line to what the part denotes and to the tokens behind it. A single
space may stand between two parts (`Gap`), but not between a minus sign and its number (`Signed`). A
vector ends where no further number follows (`Items`); one number alone is an integer (`Literal`). A
chain groups to the left (`Chain`).
-/

namespace VectorCalc.Expr.Grammar

open Token Parse

/-! ## Rules -/

/-- Nothing, or one space. -/
inductive Gap : List Token → List Token → Prop where
  | none (ts : List Token) : Gap ts ts
  | space {t : Token} (h : t.kind = .space) (ts : List Token) : Gap (t :: ts) ts

/-- The operator `-`, which may also be a sign. -/
def Minus (t : Token) : Prop := t.kind = .operator ∧ t.text = "-"

/-- A number token, or a minus sign with a number token directly behind it. -/
inductive Signed : List Token → Bool → Token → List Token → Prop where
  | plain {token : Token} (h : token.kind = .number) (rest : List Token) :
    Signed (token :: rest) false token rest
  | negated {m token : Token} (hm : Minus m) (h : token.kind = .number)
    (rest : List Token) : Signed (m :: token :: rest) true token rest

/-- The items behind the first one of a vector, as many as follow. -/
inductive Items : List Token → List Int64 → List Token → Prop where
  | done {ts : List Token}
    (h : ∀ us negative token rest, Gap ts us → ¬ Signed us negative token rest) : Items ts [] ts
  | more {ts us vs rest : List Token} {negative : Bool} {token : Token} {n : Int64}
    {ns : List Int64} (hgap : Gap ts us) (hsigned : Signed us negative token vs)
    (hn : Numeral negative token n) (hitems : Items vs ns rest) : Items ts (n :: ns) rest

/-- The value of the numbers of a vector. -/
inductive Literal : List Int64 → Value → Prop where
  | number (n : Int64) : Literal [n] (.int n)
  | several (m n : Int64) (ns : List Int64) :
    Literal (m :: n :: ns) (.vector ⟨m :: n :: ns, List.cons_ne_nil _ _⟩)

/-- A vector, a name that is bound, or a term behind a unary operator. -/
inductive Term (bound : String → Bool) : List Token → Expr → List Token → Prop where
  | vector {ts us rest : List Token} {negative : Bool} {token : Token} {n : Int64}
    {ns : List Int64} {v : Value} (hsigned : Signed ts negative token us)
    (hn : Numeral negative token n) (hitems : Items us ns rest) (hv : Literal (n :: ns) v) :
    Term bound ts (.literal (.value v)) rest
  | name {t : Token} (ht : t.kind = .identifier) (hb : bound t.text = true) (rest : List Token) :
    Term bound (t :: rest) (.ref t.text) rest
  | unary {t : Token} {ts us rest : List Token} {e : Expr} (ht : isUnary t = true)
    (hgap : Gap ts us) (he : Term bound us e rest) : Term bound (t :: ts) (.unary t.text e) rest

/-- A term, a binary operator between a chain and a term, or a unary operator behind a chain. -/
inductive Chain (bound : String → Bool) : List Token → Expr → List Token → Prop where
  | term {ts rest : List Token} {e : Expr} (h : Term bound ts e rest) : Chain bound ts e rest
  | binary {t : Token} {ts us vs ws rest : List Token} {left right : Expr}
    (hleft : Chain bound ts left us) (hgap : Gap us (t :: vs)) (ht : isBinary t = true)
    (hgap' : Gap vs ws) (hright : Term bound ws right rest) :
    Chain bound ts (.binary t.text left right) rest
  | unary {t : Token} {ts us rest : List Token} {e : Expr} (he : Chain bound ts e us)
    (hgap : Gap us (t :: rest)) (ht : isUnary t = true) : Chain bound ts (.unary t.text e) rest

/-- The end of a line. -/
def End (ts : List Token) : Prop := ∃ t, t.kind = .eof ∧ Gap ts [t]

/-- What is assigned: a number or a name that is bound. -/
inductive Assigned (bound : String → Bool) : List Token → Expr → List Token → Prop where
  | number {ts rest : List Token} {negative : Bool} {token : Token} {n : Int64}
    (hsigned : Signed ts negative token rest) (hn : Numeral negative token n) :
    Assigned bound ts (.literal (.value (.int n))) rest
  | name {t : Token} (ht : t.kind = .identifier) (hb : bound t.text = true) (rest : List Token) :
    Assigned bound (t :: rest) (.ref t.text) rest

/-- A whole line: an assignment or a chain, with spaces around it. -/
inductive Line (bound : String → Bool) : List Token → Expr → Prop where
  | assign {x a : Token} {ts us vs ws rest : List Token} {e : Expr} (hgap : Gap ts (x :: us))
    (hx : x.kind = .identifier) (hgap' : Gap us (a :: vs)) (ha : a.kind = .assign)
    (hgap'' : Gap vs ws) (he : Assigned bound ws e rest) (hend : End rest) :
    Line bound ts (.assign x.text e)
  | chain {ts us rest : List Token} {e : Expr} (hgap : Gap ts us) (he : Chain bound us e rest)
    (hend : End rest) : Line bound ts e

/-! ## Literals -/

/-- The parser makes the literal of its numbers. -/
theorem ofNumbers_eq_iff {n : Int64} {ns : List Int64} {v : Value} :
    ofNumbers n ns = .literal (.value v) ↔ Literal (n :: ns) v := by
  constructor
  · intro h
    cases ns with
    | nil =>
      cases h
      exact .number n
    | cons m ns =>
      cases h
      exact .several n m ns
  · intro h
    cases h with
    | number => rfl
    | several => rfl

theorem exists_literal (n : Int64) (ns : List Int64) : ∃ v, Literal (n :: ns) v := by
  cases ns with
  | nil => exact ⟨_, .number n⟩
  | cons m ns => exact ⟨_, .several n m ns⟩

theorem isMinus_iff {t : Token} : isMinus t = true ↔ Minus t := by
  simp only [isMinus, Bool.and_eq_true, decide_eq_true_eq, Minus]

/-! ## Gaps -/

variable {bound : String → Bool} {ts us rest : List Token}

theorem gap_skipSpace (ts : List Token) : Gap ts (skipSpace ts) := by
  cases ts with
  | nil => exact .none _
  | cons t ts =>
    by_cases ht : t.kind = .space
    · rw [skipSpace_of_space ht]
      exact .space ht ts
    · rw [skipSpace_of_ne ht]
      exact .none _

/-- Before a token that is no space, a gap is as long as it can be. -/
theorem Gap.skipSpace_of_ne {t : Token} (h : Gap ts (t :: us)) (ht : t.kind ≠ .space) :
    skipSpace ts = t :: us := by
  cases h with
  | none => exact skipSpace_of_ne ht us
  | space hs => exact skipSpace_of_space hs _

theorem Gap.suffix (h : Gap ts us) : us <:+ ts := by
  cases h with
  | none => exact List.suffix_refl _
  | space => exact List.suffix_cons _ _

/-- In a regular list nothing is left to be skipped behind a gap. -/
theorem skipSpace_skipSpace (h : Regular ts) : skipSpace (skipSpace ts) = skipSpace ts := by
  cases ts with
  | nil => rfl
  | cons t ts =>
    by_cases ht : t.kind = .space
    · rw [skipSpace_of_space ht]
      cases ts with
      | nil => rfl
      | cons u ts => exact skipSpace_of_ne ((List.isChain_cons_cons.1 h.spaces_apart).1 ht) ts
    · rw [skipSpace_of_ne ht, skipSpace_of_ne ht]

theorem skipSpace_suffix (ts : List Token) : skipSpace ts <:+ ts := (gap_skipSpace ts).suffix

/-! ## Tokens behind a part -/

theorem Signed.suffix {negative : Bool} {token : Token} (h : Signed ts negative token rest) :
    rest <:+ ts := by
  cases h with
  | plain => exact List.suffix_cons _ _
  | negated => exact (List.suffix_cons _ _).trans (List.suffix_cons _ _)

theorem Items.suffix {ns : List Int64} (h : Items ts ns rest) : rest <:+ ts := by
  induction h with
  | done => exact List.suffix_refl _
  | more hgap hsigned _ _ ih => exact ih.trans (hsigned.suffix.trans hgap.suffix)

theorem Term.suffix {e : Expr} (h : Term bound ts e rest) : rest <:+ ts := by
  induction h with
  | vector hsigned _ hitems _ => exact hitems.suffix.trans hsigned.suffix
  | name => exact List.suffix_cons _ _
  | unary _ hgap _ ih => exact ih.trans (hgap.suffix.trans (List.suffix_cons _ _))

theorem Chain.suffix {e : Expr} (h : Chain bound ts e rest) : rest <:+ ts := by
  induction h with
  | term h => exact h.suffix
  | binary _ hgap _ hgap' hright ih =>
    exact hright.suffix.trans
      (hgap'.suffix.trans ((List.suffix_cons _ _).trans (hgap.suffix.trans ih)))
  | unary _ hgap _ ih => exact (List.suffix_cons _ _).trans (hgap.suffix.trans ih)

theorem Assigned.suffix {e : Expr} (h : Assigned bound ts e rest) : rest <:+ ts := by
  cases h with
  | number hsigned => exact hsigned.suffix
  | name => exact List.suffix_cons _ _

/-! ## First tokens -/

theorem Signed.first {negative : Bool} {token : Token} (h : Signed ts negative token rest) :
    ∃ t us, ts = t :: us ∧ t.kind ≠ .eof ∧ t.kind ≠ .space ∧ t.kind ≠ .identifier := by
  cases h with
  | plain h =>
    exact ⟨_, _, rfl, ne_of_kind h (by decide), ne_of_kind h (by decide), ne_of_kind h (by decide)⟩
  | negated hm =>
    have h := hm.1
    exact ⟨_, _, rfl, ne_of_kind h (by decide), ne_of_kind h (by decide), ne_of_kind h (by decide)⟩

theorem Term.first {e : Expr} (h : Term bound ts e rest) :
    ∃ t us, ts = t :: us ∧ t.kind ≠ .eof ∧ t.kind ≠ .space := by
  cases h with
  | vector hsigned =>
    obtain ⟨t, us, hts, heof, hspace, -⟩ := hsigned.first
    exact ⟨t, us, hts, heof, hspace⟩
  | name h => exact ⟨_, _, rfl, ne_of_kind h (by decide), ne_of_kind h (by decide)⟩
  | unary ht =>
    have h := (isUnary_iff.1 ht).1
    exact ⟨_, _, rfl, ne_of_kind h (by decide), ne_of_kind h (by decide)⟩

/-- A chain begins with a term. -/
theorem Chain.term_first {e : Expr} (h : Chain bound ts e rest) :
    ∃ e₀ rest₀, Term bound ts e₀ rest₀ := by
  induction h with
  | term h => exact ⟨_, _, h⟩
  | binary _ _ _ _ _ ih => exact ih
  | unary _ _ _ ih => exact ih

/-- No part of a line begins with a space. -/
theorem Signed.skipSpace_eq {negative : Bool} {token : Token}
    (h : Signed ts negative token rest) : skipSpace ts = ts := by
  obtain ⟨t, us, rfl, -, hspace, -⟩ := h.first
  exact skipSpace_of_ne hspace us

theorem Term.skipSpace_eq {e : Expr} (h : Term bound ts e rest) : skipSpace ts = ts := by
  obtain ⟨t, us, rfl, -, hspace⟩ := h.first
  exact skipSpace_of_ne hspace us

/-- A gap before tokens that begin with no space is as long as it can be. -/
theorem Gap.skipSpace_eq (h : Gap ts us) (hus : skipSpace us = us) : skipSpace ts = us := by
  cases h with
  | none => exact hus
  | space hs => exact skipSpace_of_space hs _

theorem signed?_iff {negative : Bool} {token : Token} :
    signed? ts = some (negative, token, rest) ↔ Signed ts negative token rest := by
  rw [signed?_eq_some_iff]
  constructor
  · rintro ⟨hkind, ⟨rfl, rfl⟩ | ⟨rfl, m, hm, rfl⟩⟩
    · exact .plain hkind rest
    · exact .negated (isMinus_iff.1 hm) hkind rest
  · intro h
    cases h with
    | plain h => exact ⟨h, .inl ⟨rfl, rfl⟩⟩
    | negated hm h => exact ⟨h, .inr ⟨rfl, _, isMinus_iff.2 hm, rfl⟩⟩

/-- A vector ends where no number stands behind a gap. -/
theorem items_done (h : signed? (skipSpace ts) = none) : Items ts [] ts := by
  refine .done fun us negative token rest hgap hsigned => ?_
  rw [hgap.skipSpace_eq hsigned.skipSpace_eq, signed?_iff.2 hsigned] at h
  cases h

end VectorCalc.Expr.Grammar
