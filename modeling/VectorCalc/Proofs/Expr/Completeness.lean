import Mathlib
import VectorCalc.Proofs.Expr.Soundness
import VectorCalc.Proofs.Token.Rereading

/-!
# What is derived is parsed

A derivation of the grammar leads the parser: on each part of a line it either gives what the part
denotes, or it has met a step back that was refused. With a tape, or a cursor of two tokens or more,
nothing is refused.
-/

namespace VectorCalc.Expr.Grammar

open Token Parse

variable {α β : Type} {twice : Token → Except Fault Unit} {bound : String → Bool}
  {ts us rest : List Token}

/-! ## Outcomes up to a refusal -/

/-- The outcome is a fault with which a step back was refused. -/
def Refused (twice : Token → Except Fault Unit) (o : Except Fault α) : Prop :=
  ∃ a f, twice a = .error f ∧ o = .error f

/-- A refusal ends whatever would have followed. -/
theorem Refused.bind {o : Except Fault α} (h : Refused twice o) (k : α → Except Fault β) :
    Refused twice (o >>= k) := by
  obtain ⟨a, f, ha, rfl⟩ := h
  exact ⟨a, f, ha, rfl⟩

/-- Where every step back is granted there are no refusals. -/
theorem not_refused_tape (o : Except Fault α) : ¬ Refused Tape.twice o := by
  rintro ⟨a, f, ha, -⟩
  cases ha

/-- The outcome is `a`, with tokens left that differ from `rest` by a space at most, unless a step
back was refused. -/
def Gives (twice : Token → Except Fault Unit) (o : Except Fault (α × List Token)) (a : α)
    (rest : List Token) : Prop :=
  Refused twice o ∨ ∃ r, o = .ok (a, r) ∧ skipSpace r = skipSpace rest

theorem Gives.bind {o : Except Fault (α × List Token)} {a : α} {b : β} {rest' : List Token}
    {k : α × List Token → Except Fault (β × List Token)} (h : Gives twice o a rest)
    (hk : ∀ r, skipSpace r = skipSpace rest → Gives twice (k (a, r)) b rest') :
    Gives twice (o >>= k) b rest' := by
  rcases h with h | ⟨r, rfl, hr⟩
  · exact .inl (h.bind k)
  · exact hk r hr

/-! ## Terms -/

/-- The step back at the end of a vector is granted, or it is refused behind a minus sign. -/
theorem stepBack_cases (ts : List Token) :
    stepBack twice ts = .ok () ∨
      ∃ m a after f, ts = m :: a :: after ∧ isMinus m = true ∧ twice a = .error f ∧
        stepBack twice ts = .error f := by
  unfold stepBack
  split
  · next m a after =>
    -- only a minus sign has been read together with the token behind it
    by_cases hm : isMinus m = true
    · rw [if_pos hm]
      cases ha : twice a with
      | ok u => exact .inl rfl
      | error f => exact .inr ⟨m, a, after, f, rfl, hm, ha, rfl⟩
    · rw [if_neg hm]
      exact .inl rfl
  · exact .inl rfl

/-- The parser reads the items of a vector, and then steps back. -/
theorem numbersOf_of_items {ns : List Int64} (hreg : Regular ts) (h : Items ts ns rest) :
    numbersOf twice ts = (do
      stepBack twice (skipSpace rest)
      .ok (ns, skipSpace rest)) := by
  induction h with
  | @done ts h =>
    apply numbersOf_of_none
    cases hsigned : signed? (skipSpace ts) with
    | none => rfl
    | some found =>
      obtain ⟨negative, token, rest⟩ := found
      exact absurd (signed?_iff.1 hsigned) (h _ negative token rest (gap_skipSpace ts))
  | @more ts us vs rest negative token n ns hgap hsigned hn _ ih =>
    have hus := hreg.suffix hgap.suffix
    have hskip : signed? (skipSpace ts) = some (negative, token, vs) := by
      rw [hgap.skipSpace_eq hsigned.skipSpace_eq]
      exact signed?_iff.2 hsigned
    rw [numbersOf_of_signed hskip, (hsigned.numeral hus).2 hn, ih (hus.suffix hsigned.suffix)]
    cases stepBack twice (skipSpace rest) <;> rfl

theorem gives_numbersOf {ns : List Int64} (hreg : Regular ts) (h : Items ts ns rest) :
    Gives twice (numbersOf twice ts) ns rest := by
  rw [numbersOf_of_items hreg h]
  rcases stepBack_cases (skipSpace rest) with hback | ⟨m, a, after, f, -, -, ha, hback⟩
  · rw [hback]
    exact .inr ⟨_, rfl, skipSpace_skipSpace (hreg.suffix h.suffix)⟩
  · rw [hback]
    exact .inl ⟨a, f, ha, rfl⟩

/-- A derived number with its sign is the beginning of a literal. -/
theorem termOf_of_signed {negative : Bool} {token : Token} {n : Int64}
    (h : Signed ts negative token us) (hn : number negative token = .ok n) :
    termOf twice bound ts = (do
      let (ns, rest) ← numbersOf twice us
      .ok (ofNumbers n ns, rest)) := by
  cases h with
  | plain ht =>
    rw [termOf_of_number ht, hn]
    rfl
  | negated hm ht =>
    rw [termOf_of_minus (isMinus_iff.2 hm), negativeOf_of_number ht, hn]
    rfl

theorem gives_termOf {e : Expr} (hreg : Regular ts) (h : Term bound ts e rest) :
    Gives twice (termOf twice bound ts) e rest := by
  induction h with
  | @vector ts us rest negative token n ns v hsigned hn hitems hv =>
    have hnumber := (hsigned.numeral hreg).2 hn
    have hns : Gives twice (numbersOf twice us) ns rest :=
      gives_numbersOf (hreg.suffix hsigned.suffix) hitems
    rw [termOf_of_signed hsigned hnumber, ← ofNumbers_eq_iff.2 hv]
    exact hns.bind fun r hr => .inr ⟨r, rfl, hr⟩
  | @name t ht hb rest =>
    rw [termOf_of_identifier ht, refOf, if_pos hb]
    exact .inr ⟨rest, rfl, rfl⟩
  | @unary t ts us rest e ht hgap he ih =>
    have hus := hreg.tail.suffix hgap.suffix
    rw [termOf_of_unary ht, hgap.skipSpace_eq he.skipSpace_eq]
    exact (ih hus).bind fun r hr => .inr ⟨r, rfl, hr⟩

/-! ## Chains -/

/-- The parser gets through a derived chain and goes on behind it. -/
theorem chainFrom_of_chain {e : Expr} (hreg : Regular ts) (h : Chain bound ts e rest) :
    Refused twice (chainFrom twice bound ts) ∨
      chainFrom twice bound ts = chainOf twice bound e rest := by
  -- a chain grows on the right, as the loop does: each link is one turn
  induction h with
  | @term ts rest e h =>
    rcases gives_termOf hreg h with hrefused | ⟨r, hr, hskip⟩
    · exact .inl (hrefused.bind _)
    · right
      rw [chainFrom, hr]
      exact chainOf_congr hskip
  | @binary t ts us vs ws rest left right hleft hgap ht hgap' hright ih =>
    have hspace : t.kind ≠ .space := ne_of_kind (isBinary_iff.1 ht).1 (by decide)
    have hws := ((hreg.suffix hleft.suffix).suffix hgap.suffix).tail.suffix hgap'.suffix
    rcases ih hreg with hrefused | hchain
    · exact .inl hrefused
    rw [hchain, chainOf_of_binary (hgap.skipSpace_of_ne hspace) ht,
      hgap'.skipSpace_eq hright.skipSpace_eq]
    rcases gives_termOf hws hright with hrefused | ⟨r, hr, hskip⟩
    · exact .inl (hrefused.bind _)
    · right
      rw [hr]
      exact chainOf_congr hskip
  | @unary t ts us rest e he hgap ht ih =>
    have hspace : t.kind ≠ .space := ne_of_kind (isUnary_iff.1 ht).1 (by decide)
    rw [← chainOf_of_unary (hgap.skipSpace_of_ne hspace) ht]
    exact ih hreg

/-! ## Lines -/

theorem endOf_of_eof {t : Token} (h : t.kind = .eof) : endOf [t] = .ok ((), []) := by
  rw [endOf, skipSpace_of_ne (ne_of_kind h (by decide))]
  exact if_pos h

/-- A line that is no assignment is a chain up to the end. -/
theorem lineOf_of_chain {t : Token} (hreg : Regular us) (hskip : skipSpace ts = t :: us)
    (he : t.kind ≠ .eof)
    (hfollow : t.kind = .identifier →
      ∃ follow after, skipSpace us = follow :: after ∧ follow.kind ≠ .assign) :
    lineOf twice bound ts = (do
      let (e, rest) ← chainFrom twice bound (t :: us)
      let (_, rest) ← endOf rest
      .ok (e, rest)) := by
  rw [lineOf, hskip, chainFrom]
  dsimp only
  rw [if_neg he]
  by_cases hi : t.kind = .identifier
  · obtain ⟨follow, after, hskip', ha⟩ := hfollow hi
    -- the parser has read ahead over a space, which the chain would have skipped
    have hchain : ∀ e, chainOf twice bound e (follow :: after) = chainOf twice bound e us := by
      intro e
      apply chainOf_congr
      rw [← hskip', skipSpace_skipSpace hreg]
    rw [if_pos hi, hskip', termOf_of_identifier hi]
    dsimp only
    rw [if_neg ha]
    unfold closeOf
    cases refOf bound t with
    | error f => rfl
    | ok e =>
      show (chainOf twice bound e (follow :: after) >>= _) = (chainOf twice bound e us >>= _)
      rw [hchain e]
  · rw [if_neg hi]
    unfold closeOf
    cases termOf twice bound (t :: us) <;> rfl

/-- Behind the name with which a chain begins the chain ends or an operator follows. -/
theorem Chain.operator_of_name {t : Token} {e : Expr} (ht : t.kind = .identifier)
    (h : Chain bound (t :: us) e rest) :
    rest = us ∨ ∃ op after, Gap us (op :: after) ∧ op.kind = .operator := by
  generalize hts : t :: us = ts at h
  -- a link that is added on the right changes nothing unless it is the first one
  have hlink : ∀ {rest after : List Token} {op : Token}, op.kind = .operator →
      Gap rest (op :: after) →
      (rest = us ∨ ∃ op after, Gap us (op :: after) ∧ op.kind = .operator) →
      ∃ op after, Gap us (op :: after) ∧ op.kind = .operator := by
    intro rest after op hop hgap hrest
    rcases hrest with rfl | hrest
    · exact ⟨op, after, hgap, hop⟩
    · exact hrest
  induction h with
  | term h =>
    left
    cases h with
    | vector hsigned =>
      cases hsigned with
      | plain h =>
        cases hts
        rw [ht] at h
        cases h
      | negated hm =>
        cases hts
        rw [hm.1] at ht
        cases ht
    | name =>
      cases hts
      rfl
    | unary hu =>
      cases hts
      rw [(isUnary_iff.1 hu).1] at ht
      cases ht
  | binary _ hgap hop _ _ ih => exact .inr (hlink (isBinary_iff.1 hop).1 hgap (ih hts))
  | unary _ hgap hop ih => exact .inr (hlink (isUnary_iff.1 hop).1 hgap (ih hts))

/-- Behind a name that begins a chain there is no assignment sign, unless it stands behind the whole
chain. -/
theorem follow_of_chain {t z : Token} {e : Expr} {after : List Token} (ht : t.kind = .identifier)
    (h : Chain bound (t :: us) e rest) (hgap : Gap rest (z :: after)) (hspace : z.kind ≠ .space)
    (hassign : z.kind ≠ .assign) :
    ∃ follow after, skipSpace us = follow :: after ∧ follow.kind ≠ .assign := by
  rcases h.operator_of_name ht with rfl | ⟨op, after, hgap', hop⟩
  · exact ⟨z, after, hgap.skipSpace_of_ne hspace, hassign⟩
  · exact ⟨op, after, hgap'.skipSpace_of_ne (ne_of_kind hop (by decide)),
      ne_of_kind hop (by decide)⟩

theorem assignedOf_of_assigned {e : Expr} (hreg : Regular ts) (hgap : Gap ts us)
    (h : Assigned bound us e rest) : assignedOf bound ts = .ok (e, rest) := by
  have hus := hreg.suffix hgap.suffix
  cases h with
  | number hsigned hn =>
    have hnumber := (hsigned.numeral hus).2 hn
    rw [assignedOf, hgap.skipSpace_eq hsigned.skipSpace_eq]
    cases hsigned with
    | plain ht => simp [ht, hnumber, bind, Except.bind, ofNumbers]
    | negated hm ht =>
      have hminus := isMinus_iff.2 hm
      simp [hm.1, hminus, negativeOf_of_number ht, hnumber, bind, Except.bind, ofNumbers]
  | name ht hb =>
    rw [assignedOf, hgap.skipSpace_of_ne (ne_of_kind ht (by decide))]
    simp [ht, refOf, hb, bind, Except.bind]

/-- The parser reads a derived line to its end. -/
theorem gives_lineOf {e : Expr} (hreg : Regular ts) (h : Line bound ts e) :
    Gives twice (lineOf twice bound ts) e [] := by
  cases h with
  | @assign x a _ us vs ws rest e hgap hx hgap' ha hgap'' he hend =>
    have hus := (hreg.suffix hgap.suffix).tail
    have hvs := (hus.suffix hgap'.suffix).tail
    have hrest := (hvs.suffix hgap''.suffix).suffix he.suffix
    have hclose : endOf rest = .ok ((), []) := (endOf_eq_ok_iff hrest).2 ⟨rfl, hend⟩
    have hline : lineOf twice bound ts = .ok (.assign x.text e, []) := by
      rw [lineOf, hgap.skipSpace_of_ne (ne_of_kind hx (by decide))]
      dsimp only
      rw [if_neg (ne_of_kind hx (by decide)), if_pos hx,
        hgap'.skipSpace_of_ne (ne_of_kind ha (by decide))]
      dsimp only
      rw [if_pos ha, assignedOf_of_assigned hvs hgap'' he]
      show (endOf rest >>= _) = _
      rw [hclose]
      rfl
    exact .inr ⟨[], hline, rfl⟩
  | @chain _ us rest e hgap he hend =>
    have hus := hreg.suffix hgap.suffix
    obtain ⟨e₀, rest₀, hterm⟩ := he.term_first
    obtain ⟨t, after, rfl, heof, hspace⟩ := hterm.first
    obtain ⟨z, hz, hgap'⟩ := hend
    have hfollow : t.kind = .identifier →
        ∃ follow after', skipSpace after = follow :: after' ∧ follow.kind ≠ .assign := fun hi =>
      follow_of_chain hi he hgap' (ne_of_kind hz (by decide)) (ne_of_kind hz (by decide))
    rw [lineOf_of_chain hus.tail (hgap.skipSpace_of_ne hspace) heof hfollow]
    rcases chainFrom_of_chain hus he with hrefused | hchain
    · exact .inl (hrefused.bind _)
    · rw [hchain, chainOf_of_ne (hgap'.skipSpace_of_ne (ne_of_kind hz (by decide)))
        (ne_of_kind hz (by decide))]
      show Gives twice (endOf [z] >>= _) e []
      rw [endOf_of_eof hz]
      exact .inr ⟨[], rfl, rfl⟩

/-- The list of tokens is parsed as it is derived, if no step back is refused. -/
theorem lineOf_eq_ok_iff {e : Expr} (hreg : Regular ts) :
    (∃ r, lineOf Tape.twice bound ts = .ok (e, r)) ↔ Line bound ts e := by
  constructor
  · rintro ⟨r, h⟩
    exact (line_of_lineOf hreg h).1
  · intro h
    obtain ⟨r, hr, -⟩ := (gives_lineOf hreg h).resolve_left (not_refused_tape _)
    exact ⟨r, hr⟩

/-- A line has one tree. -/
theorem line_unique {e e' : Expr} (hreg : Regular ts) (h : Line bound ts e)
    (h' : Line bound ts e') : e = e' := by
  obtain ⟨r, hr⟩ := (lineOf_eq_ok_iff hreg).2 h
  obtain ⟨r', hr'⟩ := (lineOf_eq_ok_iff hreg).2 h'
  cases hr.symm.trans hr'
  rfl

end VectorCalc.Expr.Grammar
