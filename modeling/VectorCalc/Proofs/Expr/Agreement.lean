import Mathlib
import VectorCalc.Proofs.Expr.TokenList

/-!
# The parser on a source is the parser on a list

On every source that gives tokens again (`Source.Rereads`) the parser does what the functions on the
list of the remaining tokens do. `Agrees` compares an outcome on the list with a run on the source:
the same fault, or the same result with the source left at the same tokens. There is one lemma for
each part of a line, by induction on the bound of its loop, and `parseFrom_agrees` for the whole.
-/

namespace VectorCalc.Expr.Parse

open Token

section

variable {σ : Type} [Source σ] {α β : Type}

/-- The run on the source ends as the outcome on the list says. -/
def Agrees (V : σ → List Token → Prop) (outcome : Except Fault (α × List Token))
    (run : Except Fault α × σ) : Prop :=
  match outcome with
  | .ok (a, rest) => run.1 = .ok a ∧ V run.2 rest
  | .error f => run.1 = .error f

/-- The source has the tokens left, and there are some. -/
def Ahead (V : σ → List Token → Prop) (s : σ) (ts : List Token) : Prop := V s ts ∧ ts ≠ []

variable {V W : σ → List Token → Prop} {twice : Token → Except Fault Unit}

omit [Source σ] in
theorem agrees_error (f : Fault) (s : σ) :
    Agrees V (.error f : Except Fault (α × List Token)) (.error f, s) := rfl

omit [Source σ] in
/-- The outcome of the run is the one on the list, without the tokens left. -/
theorem Agrees.fst_eq {o : Except Fault (α × List Token)} {run : Except Fault α × σ}
    (h : Agrees V o run) : run.1 = o.map Prod.fst := by
  cases o with
  | error f => exact h
  | ok p => exact h.1

omit [Source σ] in
theorem Agrees.bind {o : Except Fault (α × List Token)}
    {k : α × List Token → Except Fault (β × List Token)} {m : Reader σ α} {m' : α → Reader σ β}
    {s : σ} (h : Agrees V o (m s))
    (hk : ∀ a rest s', o = .ok (a, rest) → V s' rest → Agrees W (k (a, rest)) (m' a s')) :
    Agrees W (o >>= k) ((m >>= m') s) := by
  rcases hm : m s with ⟨r, s'⟩
  rw [hm] at h
  cases o with
  | error f =>
    cases (show r = .error f from h)
    rw [Reader.run_bind_of_error hm]
    exact agrees_error f s'
  | ok p =>
    obtain ⟨a, rest⟩ := p
    obtain ⟨hr, hV⟩ := h
    cases (show r = .ok a from hr)
    rw [Reader.run_bind_of_ok hm]
    exact hk a rest s' rfl hV

omit [Source σ] in
/-- An outcome that needs no source, and what follows it. -/
theorem agrees_lift_bind {o : Except Fault α} {k : α → Except Fault (β × List Token)}
    {m' : α → Reader σ β} {s : σ} (hk : ∀ a, o = .ok a → Agrees W (k a) (m' a s)) :
    Agrees W (o >>= k) ((liftM o >>= m' : Reader σ β) s) := by
  cases o with
  | error f =>
    rw [Reader.run_bind_of_error (Reader.run_lift _ s)]
    exact agrees_error f s
  | ok a =>
    rw [Reader.run_bind_of_ok (Reader.run_lift _ s)]
    exact hk a rfl

/-! ## Steps of a source that gives tokens again -/

/-- A reader of a word skips one space, and gives the token that stands there. -/
theorem nextWord_of_ahead (hV : Source.Rereads V twice) {s : σ} {ts : List Token}
    (h : Ahead V s ts) :
    ∃ s' t rest, skipSpace ts = t :: rest ∧ V s' (t :: rest) ∧
      Reader.nextWord s = (.ok t, (Source.next s').2) := by
  obtain ⟨hs, hne⟩ := h
  obtain ⟨t, ts, rfl⟩ := List.exists_cons_of_ne_nil hne
  obtain ⟨hnext, hs'⟩ := hV.next hs
  rw [Reader.run_nextWord, hnext]
  by_cases ht : t.kind = .space
  · have hmore := hV.more hs (ne_of_kind ht (by decide))
    obtain ⟨u, ts, rfl⟩ := List.exists_cons_of_ne_nil hmore
    refine ⟨(Source.next s).2, u, ts, skipSpace_of_space ht _, hs', ?_⟩
    rw [if_pos ht, Reader.run_next, (hV.next hs').1]
  · exact ⟨s, t, ts, skipSpace_of_ne ht _, hs, if_neg ht⟩

theorem next_of_ahead (hV : Source.Rereads V twice) {s : σ} {t : Token} {ts : List Token}
    (h : V s (t :: ts)) (ht : t.kind ≠ .eof) :
    Reader.next s = (.ok t, (Source.next s).2) ∧ Ahead V (Source.next s).2 ts := by
  obtain ⟨hnext, hs'⟩ := hV.next h
  rw [Reader.run_next, hnext]
  exact ⟨rfl, hs', hV.more h ht⟩

theorem retract_of_ahead (hV : Source.Rereads V twice) {s : σ} {t : Token} {ts : List Token}
    (h : V s (t :: ts)) :
    ∃ s', Reader.retract (Source.next s).2 = (.ok (), s') ∧ Ahead V s' (t :: ts) := by
  obtain ⟨s', hs', hV'⟩ := hV.back h
  refine ⟨s', ?_, hV', List.cons_ne_nil _ _⟩
  rw [Reader.run_retract, hs']

/-- Two steps back in a row end as the source says. -/
theorem retract_twice_agrees (hV : Source.Rereads V twice) {s : σ} {m a : Token} {ts : List Token}
    (h : V s (m :: a :: ts)) (k : Unit → Reader σ α) {b : α}
    (hk : ∀ s', k () s' = (.ok b, s')) :
    Agrees (Ahead V) (do twice a; .ok (b, m :: a :: ts))
      ((Reader.retract >>= fun _ => Reader.retract >>= k) (Source.next (Source.next s).2).2) := by
  cases htwice : twice a with
  | ok u =>
    obtain ⟨s', s'', hs', hs'', hV'⟩ := hV.back_twice h htwice
    have hfirst : Reader.retract (Source.next (Source.next s).2).2 = (.ok (), s') := by
      rw [Reader.run_retract, hs']
    have hsecond : Reader.retract s' = (.ok (), s'') := by
      rw [Reader.run_retract, hs'']
    rw [Reader.run_bind_of_ok hfirst, Reader.run_bind_of_ok hsecond, hk]
    exact ⟨rfl, hV', List.cons_ne_nil _ _⟩
  | error f =>
    obtain ⟨s', hs', hs''⟩ := hV.back_once h htwice
    have hfirst : Reader.retract (Source.next (Source.next s).2).2 = (.ok (), s') := by
      rw [Reader.run_retract, hs']
    have hsecond : Reader.retract s' = (.error f, s') := by
      rw [Reader.run_retract, hs'']
    rw [Reader.run_bind_of_ok hfirst, Reader.run_bind_of_error hsecond]
    exact agrees_error f s'

/-! ## Vectors -/

theorem numbers_agrees (hV : Source.Rereads V twice) (fuel : Nat) {s : σ} {ts : List Token}
    (h : Ahead V s ts) (hfuel : ts.length ≤ fuel) :
    Agrees (Ahead V) (numbersOf twice ts) (numbers fuel s) := by
  induction fuel generalizing s ts with
  | zero => exact absurd (List.length_eq_zero_iff.1 (Nat.le_zero.1 hfuel)) h.2
  | succ fuel ih =>
    have hle := length_skipSpace_le ts
    obtain ⟨s', t, rest, hskip, hs', hword⟩ := nextWord_of_ahead hV h
    rw [hskip, List.length_cons] at hle
    rw [numbers, Reader.run_bind_of_ok hword]
    -- a number with or without a sign, and the numbers behind it
    have hgo : ∀ {negative : Bool} {token : Token} {after : List Token} {s'' : σ},
        signed? (skipSpace ts) = some (negative, token, after) → Ahead V s'' after →
        after.length ≤ fuel →
        Agrees (Ahead V) (numbersOf twice ts)
          ((do
            let n ← number negative token
            return n :: (← numbers fuel) : Reader σ (List Int64)) s'') := by
      intro negative token after s'' hsigned hs'' hlen
      rw [numbersOf_of_signed hsigned]
      refine agrees_lift_bind fun n _ => (ih hs'' hlen).bind ?_
      exact fun ns rest s₀ _ hs₀ => ⟨rfl, hs₀⟩
    by_cases hn : t.kind = .number
    · rw [if_pos hn]
      have hrest := (next_of_ahead hV hs' (ne_of_kind hn (by decide))).2
      refine hgo ?_ hrest (by omega)
      rw [hskip, signed?_eq_some_iff]
      exact ⟨hn, .inl ⟨rfl, rfl⟩⟩
    rw [if_neg hn]
    cases hm : isMinus t with
    | false =>
      have hnone : signed? (skipSpace ts) = none := by
        rw [hskip]
        simp [signed?, hn, hm]
      obtain ⟨s'', hback, hs''⟩ := retract_of_ahead hV hs'
      rw [if_neg Bool.false_ne_true, Reader.run_bind_of_ok hback, numbersOf_of_none hnone, hskip]
      have hstep : stepBack twice (t :: rest) = .ok () := by
        cases rest <;> simp [stepBack, hm]
      rw [hstep]
      exact ⟨rfl, hs''⟩
    | true =>
      obtain ⟨hnext, hrest, hne⟩ :=
        next_of_ahead hV hs' (ne_of_kind (kind_of_isMinus hm) (by decide))
      obtain ⟨a, rest, rfl⟩ := List.exists_cons_of_ne_nil hne
      rw [if_pos rfl, Reader.run_bind_of_ok (Reader.run_next _), (hV.next hrest).1]
      by_cases ha : a.kind = .number
      · rw [if_pos ha]
        have hafter := (next_of_ahead hV hrest (ne_of_kind ha (by decide))).2
        refine hgo ?_ hafter (by rw [List.length_cons] at hle; omega)
        rw [hskip, signed?_eq_some_iff]
        exact ⟨ha, .inr ⟨rfl, t, hm, rfl⟩⟩
      · have hnone : signed? (skipSpace ts) = none := by
          rw [hskip]
          simp [signed?, hn, hm, ha]
        rw [if_neg ha, numbersOf_of_none hnone, hskip]
        have hstep : stepBack twice (t :: a :: rest) = twice a := by
          simp [stepBack, hm]
        rw [hstep]
        exact retract_twice_agrees hV hs' _ fun s' => rfl

theorem negativeNumber_agrees (hV : Source.Rereads V twice) {s : σ} {ts : List Token}
    (h : Ahead V s ts) : Agrees (Ahead V) (negativeOf ts) (negativeNumber s) := by
  obtain ⟨hs, hne⟩ := h
  obtain ⟨t, ts, rfl⟩ := List.exists_cons_of_ne_nil hne
  rw [negativeNumber, Reader.run_bind_of_ok (Reader.run_next s), (hV.next hs).1]
  by_cases ht : t.kind = .number
  · have hrest := (next_of_ahead hV hs (ne_of_kind ht (by decide))).2
    rw [if_pos ht, negativeOf_of_number ht]
    cases hn : number true t with
    | error f => exact agrees_error f _
    | ok n => exact ⟨rfl, hrest⟩
  · rw [if_neg ht, negativeOf_of_ne ht]
    exact agrees_error _ _

/-- The literal that a number and the numbers behind it make. -/
theorem ofNumbers_agrees (hV : Source.Rereads V twice) {fuel : Nat} {s : σ} {ts : List Token}
    (h : Ahead V s ts) (hfuel : ts.length ≤ fuel) (n : Int64) :
    Agrees (Ahead V)
      (do
        let (ns, rest) ← numbersOf twice ts
        .ok (ofNumbers n ns, rest))
      ((do return ofNumbers n (← numbers fuel) : Reader σ Expr) s) :=
  (numbers_agrees hV fuel h hfuel).bind fun _ _ _ _ hs => ⟨rfl, hs⟩

/-! ## Terms and chains -/

variable {bound : String → Bool}

/-- A token that begins no term is a fault, whatever bound the loop has. -/
theorem term_of_other {t : Token} (hn : t.kind ≠ .number) (hi : t.kind ≠ .identifier)
    (hm : isMinus t = false) (hu : isUnary t = false) (fuel : Nat) :
    (term bound (fuel + 1) t : Reader σ Expr) = fail t .termMissing termStart := by
  rw [term]
  cases hkind : t.kind with
  | number => exact absurd hkind hn
  | identifier => exact absurd hkind hi
  | operator =>
    simp only [isMinus, hkind, decide_true, Bool.true_and, decide_eq_false_iff_not] at hm
    rw [isUnary_eq hkind] at hu
    simp only [hm, hu, if_false, Bool.false_eq_true]
  | _ => rfl

omit [Source σ] in
theorem variableOf_agrees {s : σ} {ts : List Token} (h : V s ts) (t : Token) :
    Agrees V (do
      let e ← refOf bound t
      .ok (e, ts)) ((variableOf bound t : Reader σ Expr) s) := by
  unfold refOf variableOf
  by_cases hb : bound t.text = true
  · rw [if_pos hb, if_pos hb]
    exact ⟨rfl, h⟩
  · rw [if_neg hb, if_neg hb]
    exact agrees_error _ s

/-- The first token of a term has been read, and the others are read from the source. -/
theorem term_agrees (hV : Source.Rereads V twice) (fuel : Nat) {s : σ} {t : Token}
    {ts : List Token} (h : V s (t :: ts)) (hfuel : ts.length < fuel) :
    Agrees (Ahead V) (termOf twice bound (t :: ts)) (term bound fuel t (Source.next s).2) := by
  -- there are fewer tokens left than the bound allows turns, so the loop is never cut off
  induction fuel generalizing s t ts with
  | zero => exact absurd hfuel (Nat.not_lt_zero _)
  | succ fuel ih =>
    have hlen : ts.length ≤ fuel := Nat.le_of_lt_succ hfuel
    rcases term_cases t with (ht | ht) | ht | ht | ⟨hn, hi, hm, hu⟩
    · have hrest := (next_of_ahead hV h (ne_of_kind ht (by decide))).2
      rw [termOf_of_number ht, term, ht]
      exact agrees_lift_bind fun n _ => ofNumbers_agrees hV hrest hlen n
    · have hrest := (next_of_ahead hV h (ne_of_kind (kind_of_isMinus ht) (by decide))).2
      rw [termOf_of_minus ht, term, kind_of_isMinus ht]
      dsimp only
      rw [if_pos (text_of_isMinus ht)]
      refine (negativeNumber_agrees hV hrest).bind fun n rest s' hneg hs' => ?_
      exact ofNumbers_agrees hV hs' ((length_of_negativeOf hneg).trans hlen) n
    · have hrest := (next_of_ahead hV h (ne_of_kind ht (by decide))).2
      rw [termOf_of_identifier ht, term, ht]
      exact variableOf_agrees hrest t
    · obtain ⟨hkind, hsymbol⟩ := isUnary_iff.1 ht
      have hrest := (next_of_ahead hV h (ne_of_kind hkind (by decide))).2
      have hminus : t.text ≠ "-" := by
        intro hm
        rw [hm] at hsymbol
        cases hsymbol
      obtain ⟨s', u, rest, hskip, hs', hword⟩ := nextWord_of_ahead hV hrest
      have hle := length_skipSpace_le ts
      rw [hskip, List.length_cons] at hle
      rw [termOf_of_unary ht, hskip, term, hkind]
      dsimp only
      rw [if_neg hminus, if_pos hsymbol, Reader.run_bind_of_ok hword]
      exact (ih hs' (by omega)).bind fun _ _ _ _ hs'' => ⟨rfl, hs''⟩
    · rw [termOf_of_other hn hi hm hu, term_of_other hn hi hm hu]
      exact agrees_error _ _

theorem chain_agrees (hV : Source.Rereads V twice) (fuel : Nat) {s : σ} {left : Expr}
    {ts : List Token} (h : Ahead V s ts) (hfuel : ts.length ≤ fuel) :
    Agrees (Ahead V) (chainOf twice bound left ts) (chain bound fuel left s) := by
  -- a turn takes a token at least, so the bound covers the tokens that are left after it
  induction fuel generalizing s left ts with
  | zero => exact absurd (List.length_eq_zero_iff.1 (Nat.le_zero.1 hfuel)) h.2
  | succ fuel ih =>
    have hle := length_skipSpace_le ts
    obtain ⟨s', t, rest, hskip, hs', hword⟩ := nextWord_of_ahead hV h
    rw [hskip, List.length_cons] at hle
    rw [chain, Reader.run_bind_of_ok hword]
    rcases link_cases t with hk | ht | ht | ⟨hk, hu, hb⟩
    · obtain ⟨s'', hback, hs''⟩ := retract_of_ahead hV hs'
      rw [if_pos hk, Reader.run_bind_of_ok hback, chainOf_of_ne hskip hk]
      exact ⟨rfl, hs''⟩
    · obtain ⟨hkind, hsymbol⟩ := isUnary_iff.1 ht
      have hrest := (next_of_ahead hV hs' (ne_of_kind hkind (by decide))).2
      rw [if_neg (not_not_intro hkind), if_pos hsymbol, chainOf_of_unary hskip ht]
      exact ih hrest (by omega)
    · obtain ⟨hkind, hsymbol⟩ := isBinary_iff.1 ht
      have hunary := not_isUnary_of_isBinary ht
      rw [isUnary_eq hkind] at hunary
      have hrest := (next_of_ahead hV hs' (ne_of_kind hkind (by decide))).2
      obtain ⟨s'', u, after, hskip', hs'', hword'⟩ := nextWord_of_ahead hV hrest
      have hle' := length_skipSpace_le rest
      rw [hskip', List.length_cons] at hle'
      rw [if_neg (not_not_intro hkind), hunary, if_neg Bool.false_ne_true, if_pos hsymbol,
        chainOf_of_binary hskip ht, Reader.run_bind_of_ok hword', hskip']
      refine (term_agrees hV fuel hs'' (by omega)).bind fun right rest' s₀ hterm hs₀ => ?_
      have hlen := length_of_termOf hterm
      rw [List.length_cons] at hlen
      exact ih hs₀ (by omega)
    · have hknown : chainOf twice bound left ts = .error (faultAt t (.unknownOperator t.text) []) :=
        chainOf_of_unknown hskip hk hu hb
      rw [isUnary_eq hk] at hu
      rw [isBinary_eq hk] at hb
      rw [if_neg (not_not_intro hk), hu, hb, if_neg Bool.false_ne_true, if_neg Bool.false_ne_true,
        hknown]
      exact agrees_error _ _

/-! ## Lines -/

theorem expectEnd_agrees (hV : Source.Rereads V twice) {s : σ} {ts : List Token}
    (h : Ahead V s ts) : Agrees V (endOf ts) (expectEnd s) := by
  obtain ⟨s', t, rest, hskip, hs', hword⟩ := nextWord_of_ahead hV h
  rw [expectEnd, Reader.run_bind_of_ok hword, endOf, hskip]
  dsimp only
  by_cases he : t.kind = .eof
  · rw [if_pos he, if_pos he]
    exact ⟨rfl, (hV.next hs').2⟩
  rw [if_neg he, if_neg he]
  by_cases ha : t.kind = .assign
  · rw [if_pos ha, if_pos ha]
    exact agrees_error _ _
  · rw [if_neg ha, if_neg ha]
    exact agrees_error _ _

theorem assignedValue_agrees (hV : Source.Rereads V twice) {s : σ} {ts : List Token}
    (h : Ahead V s ts) : Agrees (Ahead V) (assignedOf bound ts) (assignedValue bound s) := by
  obtain ⟨s', t, rest, hskip, hs', hword⟩ := nextWord_of_ahead hV h
  rw [assignedValue, Reader.run_bind_of_ok hword, assignedOf, hskip]
  dsimp only
  by_cases hi : t.kind = .identifier
  · have hrest := (next_of_ahead hV hs' (ne_of_kind hi (by decide))).2
    rw [if_pos hi, if_pos hi]
    exact variableOf_agrees hrest t
  rw [if_neg hi, if_neg hi]
  by_cases hn : t.kind = .number
  · have hrest := (next_of_ahead hV hs' (ne_of_kind hn (by decide))).2
    rw [if_pos hn, if_pos hn]
    exact agrees_lift_bind fun n _ => ⟨rfl, hrest⟩
  rw [if_neg hn, if_neg hn]
  by_cases hm : isMinus t = true
  · have hrest := (next_of_ahead hV hs' (ne_of_kind (kind_of_isMinus hm) (by decide))).2
    rw [if_pos hm, if_pos hm]
    exact (negativeNumber_agrees hV hrest).bind fun _ _ _ _ hs'' => ⟨rfl, hs''⟩
  · rw [if_neg hm, if_neg hm]
    exact agrees_error _ _

theorem close_agrees (hV : Source.Rereads V twice) {fuel : Nat} {s : σ} {left : Expr}
    {ts : List Token} (h : Ahead V s ts) (hfuel : ts.length ≤ fuel) :
    Agrees V (closeOf twice bound left ts)
      ((do
        let e ← chain bound fuel left
        expectEnd
        return e : Reader σ Expr) s) := by
  refine (chain_agrees hV fuel h hfuel).bind fun e rest s' _ hs' => ?_
  exact (expectEnd_agrees hV hs').bind fun _ _ _ _ hs'' => ⟨rfl, hs''⟩

theorem line_agrees (hV : Source.Rereads V twice) {fuel : Nat} {s : σ} {ts : List Token}
    (h : Ahead V s ts) (hfuel : ts.length ≤ fuel) :
    Agrees V (lineOf twice bound ts) (line bound fuel s) := by
  have hle := length_skipSpace_le ts
  obtain ⟨s', t, rest, hskip, hs', hword⟩ := nextWord_of_ahead hV h
  rw [hskip, List.length_cons] at hle
  rw [line, Reader.run_bind_of_ok hword, lineOf, hskip]
  dsimp only
  by_cases he : t.kind = .eof
  · rw [if_pos he, if_pos he]
    exact agrees_error _ _
  rw [if_neg he, if_neg he]
  by_cases hi : t.kind = .identifier
  · -- an identifier is a target if an assignment sign follows, which is read ahead
    have hrest := (next_of_ahead hV hs' he).2
    have hle' := length_skipSpace_le rest
    obtain ⟨s'', follow, after, hskip', hs'', hword'⟩ := nextWord_of_ahead hV hrest
    rw [hskip', List.length_cons] at hle'
    rw [if_pos hi, if_pos hi, Reader.run_bind_of_ok hword', hskip']
    dsimp only
    by_cases ha : follow.kind = .assign
    · have hafter := (next_of_ahead hV hs'' (ne_of_kind ha (by decide))).2
      rw [if_pos ha, if_pos ha]
      refine (assignedValue_agrees hV hafter).bind fun e rest' s₀ _ hs₀ => ?_
      exact (expectEnd_agrees hV hs₀).bind fun _ _ _ _ hs₁ => ⟨rfl, hs₁⟩
    · obtain ⟨s₀, hback, hs₀⟩ := retract_of_ahead hV hs''
      rw [if_neg ha, if_neg ha, Reader.run_bind_of_ok hback]
      unfold refOf variableOf
      by_cases hb : bound t.text = true
      · rw [if_pos hb, if_pos hb]
        exact close_agrees hV hs₀ (by rw [List.length_cons]; omega)
      · rw [if_neg hb, if_neg hb]
        exact agrees_error _ _
  · rw [if_neg hi, if_neg hi]
    refine (term_agrees hV fuel hs' (by omega)).bind fun e rest' s'' hterm hs'' => ?_
    have hlen := length_of_termOf hterm
    rw [List.length_cons] at hlen
    have hafter : rest'.length ≤ fuel := by omega
    exact close_agrees hV hs'' hafter

/-- On a source that gives tokens again the parser ends as it ends on the list of these tokens. -/
theorem parseFrom_agrees (hV : Source.Rereads V twice) {s : σ} {ts : List Token}
    (h : Ahead V s ts) : Agrees V (lineOf twice bound ts) (parseFrom bound s) :=
  line_agrees hV h (hV.enough h.1)

end

end VectorCalc.Expr.Parse
