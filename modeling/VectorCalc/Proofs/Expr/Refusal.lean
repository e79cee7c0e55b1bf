import Mathlib
import VectorCalc.Proofs.Expr.Completeness

/-!
# Where a step back may be refused

The parser steps back twice in a row at one place only: behind a literal, when a minus sign has turned
out to belong to no number. So a source that refuses the second step shows this at such a minus sign
(`LoneMinus`) and nowhere else. Up to there it gives what a source without refusals gives
(`lineOf_sameUnless`), and it cannot get past it (`refused_lineOf`).
-/

namespace VectorCalc.Expr.Grammar

open Token Parse

/-! ## Lone minus signs -/

/-- The parse of a term gets through a number or a vector, and behind it stands a minus sign that no
number follows directly, but `a`. -/
inductive TermMeets : List Token → Token → Prop where
  | literal {ts us rest after : List Token} {negative : Bool} {token m a : Token} {n : Int64}
    {ns : List Int64} (hsigned : Signed ts negative token us) (hn : Numeral negative token n)
    (hitems : Items us ns rest) (hgap : Gap rest (m :: a :: after)) (hm : Minus m)
    (ha : a.kind ≠ .number) : TermMeets ts a
  | operand {t a : Token} {ts us : List Token} (ht : isUnary t = true) (hgap : Gap ts us)
    (h : TermMeets us a) : TermMeets (t :: ts) a

/-- The parse of a chain gets to such a term, at its beginning or behind a binary operator. -/
inductive ChainMeets (bound : String → Bool) : List Token → Token → Prop where
  | first {ts : List Token} {a : Token} (h : TermMeets ts a) : ChainMeets bound ts a
  | operand {t a : Token} {ts us vs ws : List Token} {left : Expr} (hleft : Chain bound ts left us)
    (hgap : Gap us (t :: vs)) (ht : isBinary t = true) (hgap' : Gap vs ws) (h : TermMeets ws a) :
    ChainMeets bound ts a

/-- The parse of a line as a chain gets through a literal with a lone minus sign behind it; `a` is the
token behind the minus sign. -/
def LoneMinus (bound : String → Bool) (ts : List Token) (a : Token) : Prop :=
  ∃ us, Gap ts us ∧ ChainMeets bound us a

variable {α β : Type} {twice : Token → Except Fault Unit} {bound : String → Bool}
  {ts us rest : List Token} {a : Token}

theorem TermMeets.first (h : TermMeets ts a) :
    ∃ t us, ts = t :: us ∧ t.kind ≠ .eof ∧ t.kind ≠ .space ∧ t.kind ≠ .identifier := by
  cases h with
  | literal hsigned => exact hsigned.first
  | operand ht =>
    have h := (isUnary_iff.1 ht).1
    exact ⟨_, _, rfl, ne_of_kind h (by decide), ne_of_kind h (by decide), ne_of_kind h (by decide)⟩

theorem TermMeets.skipSpace_eq (h : TermMeets ts a) : skipSpace ts = ts := by
  obtain ⟨t, us, rfl, -, hspace, -⟩ := h.first
  exact skipSpace_of_ne hspace us

/-- A chain with a lone minus sign is no assignment. -/
theorem ChainMeets.not_assignment (h : ChainMeets bound ts a) :
    ∃ t us, ts = t :: us ∧ t.kind ≠ .eof ∧ t.kind ≠ .space ∧
      (t.kind = .identifier →
        ∃ follow after, skipSpace us = follow :: after ∧ follow.kind ≠ .assign) := by
  cases h with
  | first h =>
    obtain ⟨t, us, hts, heof, hspace, hname⟩ := h.first
    exact ⟨t, us, hts, heof, hspace, fun hi => absurd hi hname⟩
  | operand hleft hgap ht =>
    obtain ⟨e₀, rest₀, hterm⟩ := hleft.term_first
    obtain ⟨t, us, rfl, heof, hspace⟩ := hterm.first
    have hop := (isBinary_iff.1 ht).1
    refine ⟨t, us, rfl, heof, hspace, fun hi => ?_⟩
    exact follow_of_chain hi hleft hgap (ne_of_kind hop (by decide)) (ne_of_kind hop (by decide))

/-! ## A lone minus sign is not passed -/

theorem refused_termOf {f : Fault} (hreg : Regular ts) (h : TermMeets ts a)
    (ha : twice a = .error f) : Refused twice (termOf twice bound ts) := by
  induction h with
  | @literal ts us rest after negative token m a n ns hsigned hn hitems hgap hm _ =>
    have hnumber := (hsigned.numeral hreg).2 hn
    have hskip : skipSpace rest = m :: a :: after :=
      hgap.skipSpace_of_ne (ne_of_kind hm.1 (by decide))
    -- the step back over the minus sign is refused
    have hrefused : Refused twice (numbersOf twice us) := by
      rw [numbersOf_of_items (hreg.suffix hsigned.suffix) hitems, hskip, stepBack,
        if_pos (isMinus_iff.2 hm), ha]
      exact ⟨a, f, ha, rfl⟩
    rw [termOf_of_signed hsigned hnumber]
    exact hrefused.bind _
  | @operand t a ts us ht hgap h ih =>
    have hus := hreg.tail.suffix hgap.suffix
    rw [termOf_of_unary ht, hgap.skipSpace_eq h.skipSpace_eq]
    exact (ih hus ha).bind _

theorem refused_chainFrom {f : Fault} (hreg : Regular ts) (h : ChainMeets bound ts a)
    (ha : twice a = .error f) : Refused twice (chainFrom twice bound ts) := by
  cases h with
  | first h => exact (refused_termOf hreg h ha).bind _
  | @operand t _ _ us vs ws left hleft hgap ht hgap' h =>
    have hws := ((hreg.suffix hleft.suffix).suffix hgap.suffix).tail.suffix hgap'.suffix
    have hspace : t.kind ≠ .space := ne_of_kind (isBinary_iff.1 ht).1 (by decide)
    -- a step back may have been refused before, at a lone minus sign further left
    rcases chainFrom_of_chain hreg hleft with hrefused | hchain
    · exact hrefused
    · rw [hchain, chainOf_of_binary (hgap.skipSpace_of_ne hspace) ht,
        hgap'.skipSpace_eq h.skipSpace_eq]
      exact (refused_termOf hws h ha).bind _

/-- The parser does not get past a lone minus sign at which a step back is refused. -/
theorem refused_lineOf {f : Fault} (hreg : Regular ts) (h : LoneMinus bound ts a)
    (ha : twice a = .error f) : Refused twice (lineOf twice bound ts) := by
  obtain ⟨us, hgap, h⟩ := h
  have hus := hreg.suffix hgap.suffix
  obtain ⟨t, after, rfl, heof, hspace, hfollow⟩ := h.not_assignment
  rw [lineOf_of_chain hus.tail (hgap.skipSpace_of_ne hspace) heof hfollow]
  exact (refused_chainFrom hus h ha).bind _

/-! ## Nothing else is refused -/

/-- The two outcomes are the same, unless the first one is the refusal of a step back over `a`, of
which `P` holds. -/
def SameUnless (twice : Token → Except Fault Unit) (P : Token → Prop) (o o' : Except Fault α) :
    Prop :=
  o = o' ∨ ∃ a f, P a ∧ twice a = .error f ∧ o = .error f

variable {P Q : Token → Prop}

theorem SameUnless.refl (o : Except Fault α) : SameUnless twice P o o := .inl rfl

theorem SameUnless.mono {o o' : Except Fault α} (h : SameUnless twice P o o')
    (hPQ : ∀ a, P a → Q a) : SameUnless twice Q o o' := by
  rcases h with h | ⟨a, f, ha, hf, ho⟩
  · exact .inl h
  · exact .inr ⟨a, f, hPQ a ha, hf, ho⟩

theorem SameUnless.bind {o o' : Except Fault α} {k k' : α → Except Fault β}
    (h : SameUnless twice P o o') (hk : ∀ a, o' = .ok a → SameUnless twice P (k a) (k' a)) :
    SameUnless twice P (o >>= k) (o' >>= k') := by
  rcases h with rfl | ⟨a, f, ha, hf, rfl⟩
  · cases o with
    | error f => exact .refl _
    | ok a => exact hk a rfl
  · exact .inr ⟨a, f, ha, hf, rfl⟩

/-- Behind the items of a vector there is a lone minus sign. -/
def ItemsMeet (ts : List Token) (a : Token) : Prop :=
  ∃ ns rest m after, Items ts ns rest ∧ Gap rest (m :: a :: after) ∧ Minus m ∧ a.kind ≠ .number

theorem stepBack_tape (ts : List Token) : stepBack Tape.twice ts = .ok () := by
  rcases stepBack_cases ts with hback | ⟨_, a, _, f, -, -, ha, -⟩
  · exact hback
  · cases ha

theorem numbersOf_sameUnless (hreg : Regular ts) :
    SameUnless twice (ItemsMeet ts) (numbersOf twice ts) (numbersOf Tape.twice ts) := by
  induction ts using numbersOf.induct with
  | case1 ts negative token after hsigned ih =>
    rw [numbersOf_of_signed hsigned, numbersOf_of_signed hsigned]
    have hsigned' := signed?_iff.1 hsigned
    have hskip := hreg.suffix (skipSpace_suffix ts)
    cases hn : number negative token with
    | error f => exact .refl _
    | ok n =>
      have hnumeral := (hsigned'.numeral hskip).1 hn
      have hlone : ∀ a, ItemsMeet after a → ItemsMeet ts a := by
        rintro a ⟨ns, rest, m, after, hitems, hmeets⟩
        exact ⟨n :: ns, rest, m, after, .more (gap_skipSpace ts) hsigned' hnumeral hitems, hmeets⟩
      exact ((ih (hskip.suffix hsigned'.suffix)).mono hlone).bind fun p _ => .refl _
  | case2 ts hnone =>
    rw [numbersOf_of_none hnone, numbersOf_of_none hnone, stepBack_tape]
    rcases stepBack_cases (skipSpace ts) with hback | ⟨m, a, after, f, hskip, hm, ha, hback⟩
    · rw [hback]
      exact .refl _
    · rw [hback]
      have hgap := gap_skipSpace ts
      have hm := isMinus_iff.1 hm
      refine .inr ⟨a, f, ⟨[], ts, m, after, items_done hnone, hskip ▸ hgap, hm, ?_⟩, ha, rfl⟩
      intro hnumber
      rw [hskip, signed?_iff.2 (.negated hm hnumber after)] at hnone
      cases hnone

theorem termOf_sameUnless (hreg : Regular ts) :
    SameUnless twice (TermMeets ts) (termOf twice bound ts) (termOf Tape.twice bound ts) := by
  induction hlen : ts.length using Nat.strong_induction_on generalizing ts with
  | _ len ih =>
    subst hlen
    cases ts with
    | nil =>
      rw [termOf, termOf]
      exact .refl _
    | cons t ts =>
      rcases term_cases t with ht | ht | ht | ⟨hn, hi, hm, hu⟩
      · rw [termOf_of_literal ht, termOf_of_literal ht]
        cases hn : signedOf (t :: ts) with
        | error f => exact .refl _
        | ok p =>
          obtain ⟨n, us⟩ := p
          obtain ⟨negative, token, hsigned, hnumeral⟩ := signed_of_signedOf ht hreg hn
          have hlone : ∀ a, ItemsMeet us a → TermMeets (t :: ts) a := by
            rintro a ⟨ns, rest, m, after, hitems, hgap, hm, ha⟩
            exact .literal hsigned hnumeral hitems hgap hm ha
          have hus : SameUnless twice (ItemsMeet us) (numbersOf twice us)
              (numbersOf Tape.twice us) := numbersOf_sameUnless (hreg.suffix hsigned.suffix)
          exact (hus.mono hlone).bind fun p _ => .refl _
      · rw [termOf_of_identifier ht, termOf_of_identifier ht]
        exact .refl _
      · rw [termOf_of_unary ht, termOf_of_unary ht]
        have hrest := hreg.tail.suffix (skipSpace_suffix ts)
        have hoperand := ih (skipSpace ts).length (Nat.lt_succ_of_le (length_skipSpace_le ts))
          hrest rfl
        exact (hoperand.mono fun a ha => .operand ht (gap_skipSpace ts) ha).bind fun p _ => .refl _
      · rw [termOf_of_other hn hi hm hu, termOf_of_other hn hi hm hu]
        exact .refl _

/-- Behind a derived chain the parser meets what the whole chain meets. -/
theorem chainOf_sameUnless {left : Expr} {r : List Token} (hreg : Regular ts)
    (hleft : Chain bound ts left us) (hr : skipSpace r = skipSpace us) :
    SameUnless twice (ChainMeets bound ts) (chainOf twice bound left r)
      (chainOf Tape.twice bound left r) := by
  induction hlen : r.length using Nat.strong_induction_on generalizing left us r with
  | _ len ih =>
    subst hlen
    have hus := hreg.suffix hleft.suffix
    have hle := length_skipSpace_le r
    have hgap := gap_skipSpace us
    cases hskip : skipSpace r with
    | nil =>
      rw [chainOf_of_nil hskip, chainOf_of_nil hskip]
      exact .refl _
    | cons t after =>
      rw [hskip, List.length_cons] at hle
      rw [← hr, hskip] at hgap
      have hafter := (hus.suffix hgap.suffix).tail
      rcases link_cases t with hk | ht | ht | ⟨hk, hu, hb⟩
      · rw [chainOf_of_ne hskip hk, chainOf_of_ne hskip hk]
        exact .refl _
      · rw [chainOf_of_unary hskip ht, chainOf_of_unary hskip ht]
        exact ih after.length (by omega) (.unary hleft hgap ht) rfl rfl
      · rw [chainOf_of_binary hskip ht, chainOf_of_binary hskip ht]
        have hright := hafter.suffix (skipSpace_suffix after)
        have hterm : SameUnless twice (ChainMeets bound ts) (termOf twice bound (skipSpace after))
            (termOf Tape.twice bound (skipSpace after)) :=
          (termOf_sameUnless hright).mono fun a ha =>
            .operand hleft hgap ht (gap_skipSpace after) ha
        refine hterm.bind fun p hp => ?_
        obtain ⟨right, r₁⟩ := p
        have hlen := length_of_termOf hp
        have hle' := length_skipSpace_le after
        obtain ⟨rest, hterm', hr₁⟩ := term_of_termOf hright hp
        exact ih r₁.length (by omega) (.binary hleft hgap ht (gap_skipSpace after) hterm') hr₁ rfl
      · rw [chainOf_of_unknown hskip hk hu hb, chainOf_of_unknown hskip hk hu hb]
        exact .refl _

theorem closeOf_sameUnless {left : Expr} {r : List Token} (hreg : Regular ts)
    (hleft : Chain bound ts left us) (hr : skipSpace r = skipSpace us) :
    SameUnless twice (ChainMeets bound ts) (closeOf twice bound left r)
      (closeOf Tape.twice bound left r) :=
  (chainOf_sameUnless hreg hleft hr).bind fun _ _ => .refl _

/-- The parser ends as it ends without refusals, unless it is stopped at a lone minus sign. -/
theorem lineOf_sameUnless (hreg : Regular ts) :
    SameUnless twice (LoneMinus bound ts) (lineOf twice bound ts)
      (lineOf Tape.twice bound ts) := by
  have hgap := gap_skipSpace ts
  unfold lineOf
  cases hskip : skipSpace ts with
  | nil => exact .refl _
  | cons t after =>
    rw [hskip] at hgap
    dsimp only
    have hword := hreg.suffix hgap.suffix
    have hafter := hword.tail
    have hlone : ∀ a, ChainMeets bound (t :: after) a → LoneMinus bound ts a :=
      fun a ha => ⟨t :: after, hgap, ha⟩
    by_cases he : t.kind = .eof
    · rw [if_pos he, if_pos he]
      exact .refl _
    rw [if_neg he, if_neg he]
    by_cases hi : t.kind = .identifier
    · rw [if_pos hi, if_pos hi]
      cases hskip' : skipSpace after with
      | nil => exact .refl _
      | cons follow after' =>
        dsimp only
        by_cases ha : follow.kind = .assign
        · rw [if_pos ha, if_pos ha]
          exact .refl _
        rw [if_neg ha, if_neg ha]
        cases hname : refOf bound t with
        | error f => exact .refl _
        | ok e =>
          obtain ⟨hb, rfl⟩ := name_of_refOf hname
          have hr : skipSpace (follow :: after') = skipSpace after := by
            rw [← hskip', skipSpace_skipSpace hafter]
          exact (closeOf_sameUnless hword (.term (.name hi hb after)) hr).mono hlone
    · rw [if_neg hi, if_neg hi]
      have hterm : SameUnless twice (ChainMeets bound (t :: after)) (termOf twice bound (t :: after))
          (termOf Tape.twice bound (t :: after)) :=
        (termOf_sameUnless hword).mono fun a ha => .first ha
      refine (hterm.bind fun p hp => ?_).mono hlone
      obtain ⟨e, r⟩ := p
      obtain ⟨rest, hterm', hr⟩ := term_of_termOf hword hp
      exact closeOf_sameUnless hword (.term hterm') hr

end VectorCalc.Expr.Grammar
