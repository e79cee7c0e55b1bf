import VectorCalc.Proofs.Expr.Blame
import VectorCalc.Proofs.Expr.Refusal
import VectorCalc.Proofs.Machine.Atomic
import VectorCalc.Proofs.Token.Glyphs

/-!
# Spaces in a line

What a line is parsed as depends on its glyphs only, so spaces may be put in and left out wherever they
neither part a minus sign from its number nor let lexemes run together.

Each part of a line is moved from tokens to tokens with the same glyphs (`ByGlyphs`), whatever stands
behind it; only the end of a vector depends on what follows, which must not be a number then (`Closed`).
-/

namespace VectorCalc.Expr.Grammar

open Token Parse

variable {bound : String → Bool} {ts us rest ts' : List Token} {t : Token}

/-! ## Glyphs of tokens -/

theorem glyphs_of_space (h : t.kind = .space) (ts : List Token) : glyphs (t :: ts) = glyphs ts :=
  if_pos h

theorem glyphs_of_ne (h : t.kind ≠ .space) (ts : List Token) :
    glyphs (t :: ts) =
      ⟨lexeme t, isMinus t && Lexeme.opensNumber (ts.map lexeme)⟩ :: glyphs ts := if_neg h

theorem Gap.glyphs_eq (h : Gap ts us) : glyphs ts = glyphs us := by
  cases h with
  | none => rfl
  | space hs => exact glyphs_of_space hs us

/-- The first glyph belongs to the first token behind a gap. -/
theorem exists_of_glyphs {g : Glyph} {gs : List Glyph} (hreg : Regular ts)
    (h : glyphs ts = g :: gs) :
    ∃ t us, Gap ts (t :: us) ∧ lexeme t = g.lexeme ∧
      (isMinus t && Lexeme.opensNumber (us.map lexeme)) = g.signs ∧ glyphs us = gs := by
  have hgap := gap_skipSpace ts
  have hskip := skipSpace_skipSpace hreg
  rw [hgap.glyphs_eq] at h
  cases hts : skipSpace ts with
  | nil =>
    rw [hts] at h
    cases h
  | cons t us =>
    rw [hts] at hgap h hskip
    have ht : t.kind ≠ .space := by
      intro ht
      rw [skipSpace_of_space ht] at hskip
      exact List.cons_ne_self t us hskip.symm
    rw [glyphs_of_ne ht] at h
    cases h
    exact ⟨t, us, hgap, rfl, rfl, rfl⟩

theorem kind_of_lexeme {t t' : Token} (h : lexeme t' = lexeme t) : t'.kind = t.kind :=
  congrArg Lexeme.kind h

theorem text_of_lexeme {t t' : Token} (h : lexeme t' = lexeme t) : t'.text = t.text :=
  congrArg Lexeme.text h

theorem isMinus_of_lexeme {t t' : Token} (h : lexeme t' = lexeme t) : isMinus t' = isMinus t := by
  rw [isMinus, isMinus, kind_of_lexeme h, text_of_lexeme h]

theorem isUnary_of_lexeme {t t' : Token} (h : lexeme t' = lexeme t) : isUnary t' = isUnary t := by
  rw [isUnary, isUnary, kind_of_lexeme h, text_of_lexeme h]

theorem isBinary_of_lexeme {t t' : Token} (h : lexeme t' = lexeme t) :
    isBinary t' = isBinary t := by
  rw [isBinary, isBinary, kind_of_lexeme h, text_of_lexeme h]

/-! ## Parts that depend on glyphs only -/

/-- No number and no sign of a number stands in front. -/
def Closed (gs : List Glyph) : Prop :=
  ∀ g ∈ gs.head?, g.lexeme.kind ≠ .number ∧ g.signs = false

/-- From `ts` to `rest` there are glyphs such that `X` holds of any tokens with these in front and of
those behind, unless the latter go on with a number and `rest` does not. -/
def ByGlyphs (X : List Token → List Token → Prop) (ts rest : List Token) : Prop :=
  ∃ front, glyphs ts = front ++ glyphs rest ∧
    ∀ ts' back, Regular ts' → glyphs ts' = front ++ back → (Closed (glyphs rest) → Closed back) →
      ∃ rest', rest' <:+ ts' ∧ X ts' rest' ∧ glyphs rest' = back

/-- Behind a gap `X` holds. -/
def Spaced (X : List Token → List Token → Prop) (ts rest : List Token) : Prop :=
  ∃ us, Gap ts us ∧ X us rest

section

variable {X Y : List Token → List Token → Prop}

/-- A gap has no glyphs. -/
theorem ByGlyphs.gap (hgap : Gap ts us) (h : ByGlyphs X us rest) : ByGlyphs X ts rest := by
  unfold ByGlyphs
  rw [hgap.glyphs_eq]
  exact h

/-- What follows a part decides about its end only through its own first glyph. -/
theorem closed_append {front gs back : List Glyph} (h : Closed gs → Closed back) :
    Closed (front ++ gs) → Closed (front ++ back) := by
  cases front with
  | nil => exact h
  | cons g front => exact fun hclosed => hclosed

theorem ByGlyphs.mono (h : ByGlyphs X ts rest) (hXY : ∀ ts rest, X ts rest → Y ts rest) :
    ByGlyphs Y ts rest := by
  obtain ⟨front, hts, hmove⟩ := h
  refine ⟨front, hts, fun ts' back hreg' hts' hback => ?_⟩
  obtain ⟨rest', hsuffix, hx, hrest'⟩ := hmove ts' back hreg' hts' hback
  exact ⟨rest', hsuffix, hXY ts' rest' hx, hrest'⟩

/-- Two parts in sequence. -/
theorem ByGlyphs.comp (hX : ByGlyphs X ts us) (hY : ByGlyphs Y us rest) :
    ByGlyphs (Relation.Comp X Y) ts rest := by
  obtain ⟨front, hts, hmoveX⟩ := hX
  obtain ⟨front', hus, hmoveY⟩ := hY
  refine ⟨front ++ front', by rw [hts, hus, List.append_assoc], fun ts' back hreg' hts' hback => ?_⟩
  rw [List.append_assoc] at hts'
  obtain ⟨us', hsuffix, hx, hus'⟩ :=
    hmoveX ts' (front' ++ back) hreg' hts' (hus ▸ closed_append hback)
  obtain ⟨rest', hsuffix', hy, hrest'⟩ := hmoveY us' back (hreg'.suffix hsuffix) hus' hback
  exact ⟨rest', hsuffix'.trans hsuffix, ⟨us', hx, hy⟩, hrest'⟩

/-- A part is moved to tokens with the same glyphs. -/
theorem ByGlyphs.move (h : ByGlyphs X ts rest) (hreg' : Regular ts')
    (hts : glyphs ts = glyphs ts') :
    ∃ rest', rest' <:+ ts' ∧ X ts' rest' ∧ glyphs rest = glyphs rest' := by
  obtain ⟨front, hfront, hmove⟩ := h
  obtain ⟨rest', hsuffix, hx, hrest⟩ := hmove ts' (glyphs rest) hreg' (hts.symm.trans hfront) id
  exact ⟨rest', hsuffix, hx, hrest.symm⟩

/-- A single token. -/
theorem byGlyphs_token (ht : t.kind ≠ .space) (ts : List Token) :
    ByGlyphs (fun us rest => ∃ t', Gap us (t' :: rest) ∧ lexeme t' = lexeme t) (t :: ts) ts := by
  refine ⟨[_], glyphs_of_ne ht ts, fun ts' back hreg' hts' _ => ?_⟩
  obtain ⟨t', rest', hgap, hlexeme, -, hrest'⟩ := exists_of_glyphs hreg' hts'
  exact ⟨rest', (List.suffix_cons t' rest').trans hgap.suffix, ⟨t', hgap, hlexeme⟩, hrest'⟩

end

/-! ## Terms -/

/-- The number `n` with its sign stands in front. -/
def Denotes (n : Int64) (ts rest : List Token) : Prop :=
  ∃ negative token, Signed ts negative token rest ∧ Numeral negative token n

theorem Signed.byGlyphs {negative : Bool} {token : Token} {n : Int64}
    (h : Signed ts negative token rest) (hn : Numeral negative token n) :
    ByGlyphs (Spaced (Denotes n)) ts rest := by
  have hnumeral : ∀ {token' : Token}, lexeme token' = lexeme token → Numeral negative token' n := by
    intro token' htoken'
    rw [Numeral, valueOf, text_of_lexeme htoken']
    exact hn
  cases h with
  | plain h =>
    refine ⟨[_], glyphs_of_ne (ne_of_kind h (by decide)) rest, fun ts' back hreg' hts' _ => ?_⟩
    obtain ⟨t', rest', hgap, hlexeme, -, hrest'⟩ := exists_of_glyphs hreg' hts'
    have hsigned := Signed.plain ((kind_of_lexeme hlexeme).trans h) rest'
    exact ⟨rest', hsigned.suffix.trans hgap.suffix,
      ⟨t' :: rest', hgap, false, t', hsigned, hnumeral hlexeme⟩, hrest'⟩
  | @negated m token hm h _ =>
    have hopens : Lexeme.opensNumber ((token :: rest).map lexeme) = true := decide_eq_true h
    have hglyphs : glyphs (m :: token :: rest) =
        [⟨lexeme m, true⟩, ⟨lexeme token, isMinus token && Lexeme.opensNumber (rest.map lexeme)⟩] ++
          glyphs rest := by
      rw [glyphs_of_ne (ne_of_kind hm.1 (by decide)), glyphs_of_ne (ne_of_kind h (by decide)),
        isMinus_iff.2 hm, hopens]
      rfl
    refine ⟨_, hglyphs, fun ts' back hreg' hts' _ => ?_⟩
    obtain ⟨m', us', hgap, -, hsigns, hus'⟩ := exists_of_glyphs hreg' hts'
    obtain ⟨hm', hopens'⟩ := Bool.and_eq_true_iff.1 hsigns
    -- the mark says that the number follows directly
    cases us' with
    | nil => cases hopens'
    | cons token' rest' =>
      have hnumber : token'.kind = .number := of_decide_eq_true hopens'
      rw [glyphs_of_ne (ne_of_kind hnumber (by decide))] at hus'
      obtain ⟨hglyph, hrest'⟩ := List.cons.inj hus'
      have hsigned := Signed.negated (isMinus_iff.1 hm') hnumber rest'
      exact ⟨rest', hsigned.suffix.trans hgap.suffix, ⟨m' :: token' :: rest', hgap, true, token',
        hsigned, hnumeral (congrArg Glyph.lexeme hglyph)⟩, hrest'⟩

/-- Where a vector ends the glyphs show it. -/
theorem closed_glyphs_iff (hreg : Regular ts) :
    Closed (glyphs ts) ↔
      ∀ us negative token rest, Gap ts us → ¬ Signed us negative token rest := by
  constructor
  · intro hclosed us negative token rest hgap hsigned
    rw [hgap.glyphs_eq] at hclosed
    cases hsigned with
    | plain h =>
      rw [glyphs_of_ne (ne_of_kind h (by decide))] at hclosed
      exact (hclosed _ rfl).1 h
    | negated hm h =>
      rw [glyphs_of_ne (ne_of_kind hm.1 (by decide))] at hclosed
      have hopens := (hclosed _ rfl).2
      rw [isMinus_iff.2 hm] at hopens
      exact of_decide_eq_false hopens h
  · intro hends g hg
    obtain ⟨gs, hgs⟩ := List.head?_eq_some_iff.1 hg
    obtain ⟨t, us, hgap, hlexeme, hsigns, -⟩ := exists_of_glyphs hreg hgs
    refine ⟨fun hnumber => ?_, ?_⟩
    · have ht : t.kind = .number := (congrArg Lexeme.kind hlexeme).trans hnumber
      exact hends _ _ _ _ hgap (.plain ht us)
    · rw [← hsigns]
      by_contra hmark
      obtain ⟨hm, hopens⟩ := Bool.and_eq_true_iff.1 (Bool.eq_true_of_not_eq_false hmark)
      cases us with
      | nil => cases hopens
      | cons token rest =>
        exact hends _ _ _ _ hgap (.negated (isMinus_iff.1 hm) (of_decide_eq_true hopens) rest)

theorem Items.byGlyphs {ns : List Int64} (hreg : Regular ts) (h : Items ts ns rest) :
    ByGlyphs (fun ts rest => Items ts ns rest) ts rest := by
  induction h with
  | @done ts hends =>
    refine ⟨[], rfl, fun ts' back hreg' hts' hback => ⟨ts', List.suffix_refl _, ?_, hts'⟩⟩
    have hclosed : Closed (glyphs ts') := by
      rw [hts']
      exact hback ((closed_glyphs_iff hreg).2 hends)
    exact .done ((closed_glyphs_iff hreg').1 hclosed)
  | @more ts us vs rest negative token n ns hgap hsigned hn hitems ih =>
    have hvs := ((hreg.suffix hgap.suffix).suffix hsigned.suffix)
    refine (((hsigned.byGlyphs hn).gap hgap).comp (ih hvs)).mono ?_
    intro ts rest hparts
    obtain ⟨us, ⟨vs, hgap', negative', token', hsigned', hn'⟩, hmore⟩ := hparts
    exact .more hgap' hsigned' hn' hmore

theorem Term.byGlyphs {e : Expr} (hreg : Regular ts) (h : Term bound ts e rest) :
    ByGlyphs (Spaced fun ts rest => Term bound ts e rest) ts rest := by
  induction h with
  | @vector ts us rest negative token n ns v hsigned hn hitems hv =>
    refine ((hsigned.byGlyphs hn).comp (hitems.byGlyphs (hreg.suffix hsigned.suffix))).mono ?_
    intro ts rest hparts
    obtain ⟨us, ⟨vs, hgap, negative', token', hsigned', hn'⟩, hmore⟩ := hparts
    exact ⟨vs, hgap, .vector hsigned' hn' hmore hv⟩
  | @name t ht hb rest =>
    refine (byGlyphs_token (ne_of_kind ht (by decide)) rest).mono ?_
    intro ts rest hname
    obtain ⟨t', hgap, hlexeme⟩ := hname
    have hb' : bound t'.text = true := by rwa [text_of_lexeme hlexeme]
    rw [← text_of_lexeme hlexeme]
    exact ⟨_, hgap, .name ((kind_of_lexeme hlexeme).trans ht) hb' rest⟩
  | @unary t ts us rest e ht hgap he ih =>
    have hspace : t.kind ≠ .space := ne_of_kind (isUnary_iff.1 ht).1 (by decide)
    have hoperand := (ih (hreg.tail.suffix hgap.suffix)).gap hgap
    refine ((byGlyphs_token hspace ts).comp hoperand).mono ?_
    intro ts rest hparts
    obtain ⟨us, ⟨t', hgap', hlexeme⟩, vs, hgap'', hterm⟩ := hparts
    rw [← text_of_lexeme hlexeme]
    exact ⟨_, hgap', .unary ((isUnary_of_lexeme hlexeme).trans ht) hgap'' hterm⟩

/-! ## Chains and lines -/

theorem Chain.byGlyphs {e : Expr} (hreg : Regular ts) (h : Chain bound ts e rest) :
    ByGlyphs (Spaced fun ts rest => Chain bound ts e rest) ts rest := by
  induction h with
  | term h =>
    refine (h.byGlyphs hreg).mono ?_
    intro ts rest hterm
    obtain ⟨us, hgap, hterm⟩ := hterm
    exact ⟨us, hgap, .term hterm⟩
  | @binary t ts us vs ws rest left right hleft hgap ht hgap' hright ih =>
    have hspace : t.kind ≠ .space := ne_of_kind (isBinary_iff.1 ht).1 (by decide)
    have hvs := ((hreg.suffix hleft.suffix).suffix hgap.suffix).tail
    have hop := (byGlyphs_token hspace vs).gap hgap
    have hoperand := (hright.byGlyphs (hvs.suffix hgap'.suffix)).gap hgap'
    refine ((ih hreg).comp (hop.comp hoperand)).mono ?_
    intro ts rest hparts
    obtain ⟨us, ⟨ts', hstart, hchain⟩, vs, ⟨t', hop, hlexeme⟩, ws, hgap', hterm⟩ := hparts
    rw [← text_of_lexeme hlexeme]
    exact ⟨ts', hstart, .binary hchain hop ((isBinary_of_lexeme hlexeme).trans ht) hgap' hterm⟩
  | @unary t ts us rest e he hgap ht ih =>
    have hspace : t.kind ≠ .space := ne_of_kind (isUnary_iff.1 ht).1 (by decide)
    refine ((ih hreg).comp ((byGlyphs_token hspace rest).gap hgap)).mono ?_
    intro ts rest hparts
    obtain ⟨us, ⟨ts', hstart, hchain⟩, t', hop, hlexeme⟩ := hparts
    rw [← text_of_lexeme hlexeme]
    exact ⟨ts', hstart, .unary hchain hop ((isUnary_of_lexeme hlexeme).trans ht)⟩

theorem Assigned.byGlyphs {e : Expr} (h : Assigned bound ts e rest) :
    ByGlyphs (Spaced fun ts rest => Assigned bound ts e rest) ts rest := by
  cases h with
  | number hsigned hn =>
    refine (hsigned.byGlyphs hn).mono ?_
    intro ts rest hfirst
    obtain ⟨us, hgap, negative', token', hsigned', hn'⟩ := hfirst
    exact ⟨us, hgap, .number hsigned' hn'⟩
  | name ht hb rest =>
    refine (byGlyphs_token (ne_of_kind ht (by decide)) rest).mono ?_
    intro ts rest hname
    obtain ⟨t', hgap, hlexeme⟩ := hname
    have hb' : bound t'.text = true := by rwa [text_of_lexeme hlexeme]
    rw [← text_of_lexeme hlexeme]
    exact ⟨_, hgap, .name ((kind_of_lexeme hlexeme).trans ht) hb' rest⟩

/-- The end of a line is seen at its glyphs. -/
theorem end_iff_glyphs (hreg : Regular ts) :
    End ts ↔ ∃ g, glyphs ts = [g] ∧ g.lexeme.kind = .eof := by
  constructor
  · intro h
    obtain ⟨t, ht, hgap⟩ := h
    refine ⟨⟨lexeme t, isMinus t && false⟩, ?_, ht⟩
    rw [hgap.glyphs_eq]
    exact glyphs_of_ne (ne_of_kind ht (by decide)) []
  · intro h
    obtain ⟨g, hg, hkind⟩ := h
    obtain ⟨t, us, hgap, hlexeme, -, -⟩ := exists_of_glyphs hreg hg
    have ht : t.kind = .eof := (congrArg Lexeme.kind hlexeme).trans hkind
    rw [hreg.eof_last t us hgap.suffix ht] at hgap
    exact ⟨t, ht, hgap⟩

theorem End.of_glyphs (h : End ts) (hreg : Regular ts) (hreg' : Regular ts')
    (hts : glyphs ts = glyphs ts') : End ts' := by
  rw [end_iff_glyphs hreg, hts, ← end_iff_glyphs hreg'] at h
  exact h

/-- A line is derived from any tokens with its glyphs. -/
theorem Line.of_glyphs {e : Expr} (hreg : Regular ts) (hreg' : Regular ts')
    (hts : glyphs ts = glyphs ts') (h : Line bound ts e) : Line bound ts' e := by
  cases h with
  | @assign x a _ us vs ws rest e hgap hx hgap' ha hgap'' he hend =>
    obtain ⟨us', hsuffix, ⟨x', hname, hlexeme⟩, hus⟩ :=
      ((byGlyphs_token (ne_of_kind hx (by decide)) us).gap hgap).move hreg' hts
    have hus' := hreg'.suffix hsuffix
    obtain ⟨vs', hsuffix', ⟨a', hsign, hlexeme'⟩, hvs⟩ :=
      ((byGlyphs_token (ne_of_kind ha (by decide)) vs).gap hgap').move hus' hus
    have hvs' := hus'.suffix hsuffix'
    obtain ⟨rest', hsuffix'', ⟨ws', hstart, he'⟩, hrest⟩ := (he.byGlyphs.gap hgap'').move hvs' hvs
    have hrest' := (((hreg.suffix hgap.suffix).tail.suffix hgap'.suffix).tail.suffix
      hgap''.suffix).suffix he.suffix
    have hend' := hend.of_glyphs hrest' (hvs'.suffix hsuffix'') hrest
    rw [← text_of_lexeme hlexeme]
    exact .assign hname ((kind_of_lexeme hlexeme).trans hx) hsign
      ((kind_of_lexeme hlexeme').trans ha) hstart he' hend'
  | @chain _ us rest _ hgap he hend =>
    have hus := hreg.suffix hgap.suffix
    obtain ⟨rest', hsuffix, ⟨us', hstart, he'⟩, hrest⟩ :=
      ((he.byGlyphs hus).gap hgap).move hreg' hts
    have hend' := hend.of_glyphs (hus.suffix he.suffix) (hreg'.suffix hsuffix) hrest
    exact .chain hstart he' hend'

/-! ## Lone minus signs -/

theorem TermMeets.of_glyphs {a : Token} (hreg : Regular ts) (hreg' : Regular ts')
    (hended : Ended ts') (hts : glyphs ts = glyphs ts') (h : TermMeets ts a) :
    ∃ us a', Gap ts' us ∧ TermMeets us a' := by
  induction h generalizing ts' with
  | @literal ts us rest after negative token m a n ns hsigned hn hitems hgap hm ha =>
    obtain ⟨us', hsuffix, ⟨vs, hstart, negative', token', hsigned', hn'⟩, hus⟩ :=
      (hsigned.byGlyphs hn).move hreg' hts
    obtain ⟨rest', hsuffix', hitems', hrest⟩ :=
      (hitems.byGlyphs (hreg.suffix hsigned.suffix)).move (hreg'.suffix hsuffix) hus
    have hminus : glyphs rest' = ⟨lexeme m, false⟩ :: glyphs (a :: after) := by
      have hopens : Lexeme.opensNumber ((a :: after).map lexeme) = false := decide_eq_false ha
      rw [← hrest, hgap.glyphs_eq, glyphs_of_ne (ne_of_kind hm.1 (by decide)), hopens,
        Bool.and_false]
    obtain ⟨m', after', hgap', hlexeme, hsigns, -⟩ :=
      exists_of_glyphs ((hreg'.suffix hsuffix).suffix hsuffix') hminus
    have hm' : isMinus m' = true := (isMinus_of_lexeme hlexeme).trans (isMinus_iff.2 hm)
    rw [hm', Bool.true_and] at hsigns
    have hfrom := hended.suffix ((hgap'.suffix.trans hsuffix').trans hsuffix) (List.cons_ne_nil _ _)
    have hafter := hfrom.tail (ne_of_kind (kind_of_isMinus hm') (by decide))
    cases after' with
    | nil => exact absurd rfl hafter.ne_nil
    | cons a' after' =>
      exact ⟨vs, a', hstart,
        .literal hsigned' hn' hitems' hgap' (isMinus_iff.1 hm') (of_decide_eq_false hsigns)⟩
  | @operand t a ts us ht hgap h ih =>
    have hspace : t.kind ≠ .space := ne_of_kind (isUnary_iff.1 ht).1 (by decide)
    obtain ⟨vs, hsuffix, ⟨t', hstart, hlexeme⟩, hvs⟩ := (byGlyphs_token hspace ts).move hreg' hts
    have ht' : isUnary t' = true := (isUnary_of_lexeme hlexeme).trans ht
    have hfrom := hended.suffix hstart.suffix (List.cons_ne_nil _ _)
    obtain ⟨us', a', hgap', h'⟩ := ih (hreg.tail.suffix hgap.suffix) (hreg'.suffix hsuffix)
      (hfrom.tail (ne_of_kind (isUnary_iff.1 ht').1 (by decide))) (hgap.glyphs_eq.symm.trans hvs)
    exact ⟨_, a', hstart, .operand ht' hgap' h'⟩

/-- Whether the parse of a line gets to a lone minus sign depends on the glyphs only. -/
theorem LoneMinus.of_glyphs {a : Token} (hreg : Regular ts) (hreg' : Regular ts')
    (hended : Ended ts') (hts : glyphs ts = glyphs ts') (h : LoneMinus bound ts a) :
    ∃ a', LoneMinus bound ts' a' := by
  obtain ⟨us, hgap, h⟩ := h
  have hus := hreg.suffix hgap.suffix
  rw [hgap.glyphs_eq] at hts
  cases h with
  | first h =>
    obtain ⟨us', a', hstart, h'⟩ := h.of_glyphs hus hreg' hended hts
    exact ⟨a', us', hstart, .first h'⟩
  | @operand t _ _ vs ws xs left hleft hgap' ht hgap'' h =>
    have hspace : t.kind ≠ .space := ne_of_kind (isBinary_iff.1 ht).1 (by decide)
    have hws := ((hus.suffix hleft.suffix).suffix hgap'.suffix).tail
    obtain ⟨vs', hsuffix, ⟨us', hstart, hleft'⟩, hvs⟩ := (hleft.byGlyphs hus).move hreg' hts
    have hvs' := hreg'.suffix hsuffix
    obtain ⟨ws', hsuffix', ⟨t', hop, hlexeme⟩, hws'⟩ :=
      ((byGlyphs_token hspace ws).gap hgap').move hvs' hvs
    have ht' : isBinary t' = true := (isBinary_of_lexeme hlexeme).trans ht
    have hfrom := hended.suffix (hop.suffix.trans hsuffix) (List.cons_ne_nil _ _)
    obtain ⟨xs', a', hoperand, h'⟩ := h.of_glyphs (hws.suffix hgap''.suffix)
      (hvs'.suffix hsuffix') (hfrom.tail (ne_of_kind (isBinary_iff.1 ht').1 (by decide)))
      (hgap''.glyphs_eq.symm.trans hws')
    exact ⟨a', us', hstart, .operand hleft' hop ht' hoperand h'⟩

end VectorCalc.Expr.Grammar

namespace VectorCalc

open Token Expr.Grammar

variable {s : Settings} {b : Bindings} {x y source : String} {e : Expr}

/-! ## Parsing -/

/-- A line is parsed if a cursor is granted, the grammar derives the line, and no step back is refused
at a lone minus sign, and only then. -/
theorem Expr.parse_accepts_iff :
    parse s b source = .ok e ↔
      (∃ c, Cursor.ofText? source s.capacity = .ok c) ∧ Line b.contains (tokenize source) e ∧
        (2 ≤ s.capacity ∨ ∀ a, ¬ LoneMinus b.contains (tokenize source) a) := by
  have hreg := regular_tokenize source
  constructor
  · intro h
    obtain ⟨c, hc⟩ := exists_cursor h
    refine ⟨⟨c, hc⟩, line_of_parse h, ?_⟩
    by_cases hcap : 2 ≤ s.capacity
    · exact .inl hcap
    · refine .inr fun a ha => ?_
      -- a smaller cursor is stopped behind the minus sign
      have htwice : Cursor.twice s.capacity a = .error (Cursor.refusal a) := if_neg hcap
      obtain ⟨a', f, -, hline⟩ := refused_lineOf hreg ha htwice
      rw [parse_eq_lineOf hc, hline] at h
      cases h
  · intro h
    obtain ⟨⟨c, hc⟩, hline, hpasses⟩ := h
    obtain ⟨r, hr⟩ := (lineOf_eq_ok_iff hreg).2 hline
    have hsame : SameUnless (Cursor.twice s.capacity) (LoneMinus b.contains (tokenize source)) _ _ :=
      lineOf_sameUnless hreg
    rw [parse_eq_lineOf hc]
    rcases hsame with hsame | ⟨a, f, ha, hf, -⟩
    · rw [hsame, hr]
      rfl
    · rcases hpasses with hcap | hpasses
      · rw [Cursor.twice_of_le hcap] at hf
        cases hf
      · exact absurd ha (hpasses a)

theorem Expr.parse_of_glyphs (hxy : glyphs (tokenize x) = glyphs (tokenize y))
    (h : parse s b x = .ok e) : parse s b y = .ok e := by
  obtain ⟨⟨c, hc⟩, hline, hpasses⟩ := parse_accepts_iff.1 h
  have hcursor := Cursor.ofText?_of_le y s.capacity_pos (le_capacityLimit hc)
  have hx := regular_tokenize x
  have hy := regular_tokenize y
  refine parse_accepts_iff.2 ⟨⟨_, hcursor⟩, hline.of_glyphs hx hy hxy, ?_⟩
  rcases hpasses with hcap | hpasses
  · exact .inl hcap
  · refine .inr fun a ha => ?_
    obtain ⟨a', ha'⟩ := ha.of_glyphs hy hx (Parse.ended_tokenize x) hxy.symm
    exact hpasses a' ha'

/-- Lines with the same glyphs are parsed alike, and what is parsed has the same outcome and leaves the
same machine. -/
theorem Machine.evaluateLine_of_glyphs (s : Settings) (m : Machine)
    (hxy : glyphs (tokenize x) = glyphs (tokenize y)) :
    (∀ e, Expr.parse s m.bindings x = .ok e ↔ Expr.parse s m.bindings y = .ok e) ∧
      ∀ e, Expr.parse s m.bindings x = .ok e → m.evaluateLine s x = m.evaluateLine s y := by
  refine ⟨fun e => ⟨Expr.parse_of_glyphs hxy, Expr.parse_of_glyphs hxy.symm⟩, fun e h => ?_⟩
  rw [evaluateLine_of_parse (Run.parse_of_ok h),
    evaluateLine_of_parse (Run.parse_of_ok (Expr.parse_of_glyphs hxy h))]

/-- Spaces may stand around operators and may be left out there, but not behind the minus sign. -/
theorem Machine.evaluateLine_of_glyphs_sums :
    (new.evaluateLine .default "\t1 -2 +/  + 3 ").1 = .ok (.int 2) ∧
      glyphs (tokenize "1 - 2+/+3") ≠ glyphs (tokenize "1 -2+/+3") := by
  have hglyphs : glyphs (tokenize "1 -2+/+3") = glyphs (tokenize "\t1 -2 +/  + 3 ") := by
    decide +kernel
  have hparse : Expr.parse .default new.bindings "1 -2+/+3" =
      .ok (.binary "+" (.unary "+/" (.literal (.value (.vector ⟨[1, -2], by decide⟩))))
        (.literal (.value (.int 3)))) := by
    decide +kernel
  have hline : (new.evaluateLine .default "1 -2+/+3").1 = .ok (.int 2) := by
    decide +kernel
  rw [← (evaluateLine_of_glyphs .default new hglyphs).2 _ hparse]
  exact ⟨hline, by decide +kernel⟩

end VectorCalc
