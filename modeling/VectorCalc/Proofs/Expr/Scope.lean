import VectorCalc.Proofs.Expr.Blame

/-!
# The names that a parser asks for

The parser asks of a name whether it is bound where an identifier stands for a value. So what it gives
depends on the identifiers of its line and on no other name: two answers to the question that are the
same for these are the same for the parser (`Expr.parse_of_identifiers`).

The lemmas go through the parts of a line. What a part leaves is a rest of its tokens, so the answers
are the same for the identifiers of the rest as well.
-/

namespace VectorCalc

open Token

/-- The identifiers of a line, first to last. -/
def Token.identifiers (source : String) : List String :=
  ((tokenize source).filter fun t => t.kind = .identifier).map Token.text

theorem Token.text_mem_identifiers {source : String} {t : Token} (ht : t ∈ tokenize source)
    (hkind : t.kind = .identifier) : t.text ∈ identifiers source := by
  apply List.mem_map_of_mem
  rw [List.mem_filter]
  exact ⟨ht, decide_eq_true hkind⟩

namespace Expr.Parse

variable {twice : Token → Except Fault Unit} {bound bound' : String → Bool} {ts us : List Token}

/-- Both answers are the same for the identifiers among the tokens. -/
def SameNames (bound bound' : String → Bool) (ts : List Token) : Prop :=
  ∀ t ∈ ts, t.kind = .identifier → bound t.text = bound' t.text

theorem SameNames.suffix (h : SameNames bound bound' ts) (hus : us <:+ ts) :
    SameNames bound bound' us := by
  intro t ht hkind
  exact h t (hus.mem ht) hkind

theorem refOf_of_sameNames {t : Token} (h : bound t.text = bound' t.text) :
    refOf bound t = refOf bound' t := by
  rw [refOf, refOf, h]

theorem termOf_of_sameNames (h : SameNames bound bound' ts) :
    termOf twice bound ts = termOf twice bound' ts := by
  -- an operand behind a unary operator has fewer tokens before it
  induction hlen : ts.length using Nat.strong_induction_on generalizing ts with
  | _ len ih =>
    subst hlen
    cases ts with
    | nil => rw [termOf, termOf]
    | cons t ts =>
      rcases term_cases t with ht | ht | ht | ⟨hn, hi, hm, hu⟩
      · rw [termOf_of_literal ht, termOf_of_literal ht]
      · rw [termOf_of_identifier ht, termOf_of_identifier ht,
          refOf_of_sameNames (h t List.mem_cons_self ht)]
      · have hsub := (Grammar.skipSpace_suffix ts).trans (List.suffix_cons t ts)
        have hlt := Nat.lt_succ_of_le (length_skipSpace_le ts)
        rw [termOf_of_unary ht, termOf_of_unary ht, ih _ hlt (h.suffix hsub) rfl]
      · rw [termOf_of_other hn hi hm hu, termOf_of_other hn hi hm hu]

theorem chainOf_of_sameNames (left : Expr) (he : Ended ts) (h : SameNames bound bound' ts) :
    chainOf twice bound left ts = chainOf twice bound' left ts := by
  -- each turn of the loop leaves fewer tokens
  induction hlen : ts.length using Nat.strong_induction_on generalizing left ts with
  | _ len ih =>
    subst hlen
    have hle := length_skipSpace_le ts
    have hsub := Grammar.skipSpace_suffix ts
    have hword := he.skipSpace
    cases hskip : skipSpace ts with
    | nil => exact absurd hskip hword.ne_nil
    | cons t after =>
      rw [hskip, List.length_cons] at hle
      rw [hskip] at hsub hword
      have hafter := (List.suffix_cons t after).trans hsub
      rcases link_cases t with hk | ht | ht | ⟨hk, hu, hb⟩
      · rw [chainOf_of_ne hskip hk, chainOf_of_ne hskip hk]
      · rw [chainOf_of_unary hskip ht, chainOf_of_unary hskip ht]
        have hended := hword.tail (ne_of_kind (isUnary_iff.1 ht).1 (by decide))
        exact ih after.length (by omega) _ hended (h.suffix hafter) rfl
      · rw [chainOf_of_binary hskip ht, chainOf_of_binary hskip ht]
        have hended := hword.tail (ne_of_kind (isBinary_iff.1 ht).1 (by decide))
        have hright := (Grammar.skipSpace_suffix after).trans hafter
        rw [termOf_of_sameNames (h.suffix hright)]
        cases hterm : termOf twice bound' (skipSpace after) with
        | error f => rfl
        | ok p =>
          obtain ⟨right, rest⟩ := p
          obtain ⟨hrest, hended'⟩ := (accounts_termOf hended.skipSpace).left right rest hterm
          have hlen := length_of_termOf hterm
          have hle' := length_skipSpace_le after
          exact ih rest.length (by omega) _ hended' (h.suffix (hrest.trans hright)) rfl
      · rw [chainOf_of_unknown hskip hk hu hb, chainOf_of_unknown hskip hk hu hb]

theorem closeOf_of_sameNames (left : Expr) (he : Ended ts) (h : SameNames bound bound' ts) :
    closeOf twice bound left ts = closeOf twice bound' left ts := by
  rw [closeOf, closeOf, chainOf_of_sameNames left he h]

theorem assignedOf_of_sameNames (h : SameNames bound bound' ts) :
    assignedOf bound ts = assignedOf bound' ts := by
  have hsub := Grammar.skipSpace_suffix ts
  unfold assignedOf
  cases hskip : skipSpace ts with
  | nil => rfl
  | cons t after =>
    rw [hskip] at hsub
    dsimp only
    split_ifs with hi
    · rw [refOf_of_sameNames (h t (hsub.mem List.mem_cons_self) hi)]
    · rfl
    · rfl
    · rfl

theorem lineOf_of_sameNames (he : Ended ts) (h : SameNames bound bound' ts) :
    lineOf twice bound ts = lineOf twice bound' ts := by
  have hsub := Grammar.skipSpace_suffix ts
  have hword := he.skipSpace
  unfold lineOf
  cases hskip : skipSpace ts with
  | nil => rfl
  | cons t after =>
    rw [hskip] at hsub hword
    dsimp only
    by_cases heof : t.kind = .eof
    · rw [if_pos heof, if_pos heof]
    rw [if_neg heof, if_neg heof]
    by_cases hi : t.kind = .identifier
    · rw [if_pos hi, if_pos hi]
      have hfollow := (hword.tail heof).skipSpace
      have hsub' := (Grammar.skipSpace_suffix after).trans ((List.suffix_cons t after).trans hsub)
      cases hskip' : skipSpace after with
      | nil => rfl
      | cons follow after' =>
        rw [hskip'] at hfollow hsub'
        dsimp only
        split_ifs with ha
        · rw [assignedOf_of_sameNames (h.suffix ((List.suffix_cons follow after').trans hsub'))]
        · rw [refOf_of_sameNames (h t (hsub.mem List.mem_cons_self) hi)]
          exact bind_congr fun e => closeOf_of_sameNames e hfollow (h.suffix hsub')
    · rw [if_neg hi, if_neg hi, termOf_of_sameNames (h.suffix hsub)]
      cases hterm : termOf twice bound' (t :: after) with
      | error f => rfl
      | ok p =>
        obtain ⟨e, rest⟩ := p
        obtain ⟨hrest, hended⟩ := (accounts_termOf hword).left e rest hterm
        exact closeOf_of_sameNames e hended (h.suffix (hrest.trans hsub))

end Expr.Parse

/-- What a line denotes depends on which of its identifiers are bound. -/
theorem Expr.parse_of_identifiers {s : Settings} {source : String} {b b' : Bindings}
    (h : ∀ x ∈ identifiers source, b.contains x = b'.contains x) :
    Expr.parse s b source = Expr.parse s b' source := by
  have hnames : Parse.SameNames b.contains b'.contains (tokenize source) :=
    fun t ht hkind => h t.text (text_mem_identifiers ht hkind)
  cases hc : Cursor.ofText? source s.capacity with
  | error f =>
    have hfault : ∀ b : Bindings, Expr.parse s b source = .error f := by
      intro b
      rw [parse, hc]
      rfl
    rw [hfault, hfault]
  | ok c =>
    rw [parse_eq_lineOf hc, parse_eq_lineOf hc,
      Parse.lineOf_of_sameNames (Parse.ended_tokenize source) hnames]

end VectorCalc
