import Mathlib
import VectorCalc.Proofs.Expr.Grammar

/-!
# What is parsed is derived

Whatever the parser makes of a list of tokens is a derivation of the grammar, and the tokens that it
leaves are those behind the derivation. The two may differ by one space: at the end of a vector and of
a chain the parser steps back over a token, but not over the space before it. So the lemmas compare
what is left behind a space, which is enough since no part begins with one.
-/

namespace VectorCalc.Expr.Grammar

open Token Parse

variable {twice : Token → Except Fault Unit} {bound : String → Bool} {ts us rest r : List Token}

/-! ## Terms -/

/-- A signed number with digits that are read is a numeral. -/
theorem Signed.numeral {negative : Bool} {token : Token} {n : Int64} (hreg : Regular ts)
    (h : Signed ts negative token rest) :
    number negative token = .ok n ↔ Numeral negative token n := by
  cases h with
  | plain h => exact number_eq_ok_iff (hreg.digits _ List.mem_cons_self h)
  | negated _ h =>
    exact number_eq_ok_iff (hreg.digits _ (List.mem_cons_of_mem _ List.mem_cons_self) h)

theorem items_of_numbersOf {ns : List Int64} (hreg : Regular ts)
    (h : numbersOf twice ts = .ok (ns, r)) : ∃ rest, Items ts ns rest ∧ r = skipSpace rest := by
  induction ts using numbersOf.induct generalizing ns with
  | case1 ts negative token after hsigned ih =>
    rw [numbersOf_of_signed hsigned] at h
    obtain ⟨n, hn, h⟩ := bind_eq_ok_iff.1 h
    obtain ⟨⟨ns', r'⟩, hrec, h⟩ := bind_eq_ok_iff.1 h
    cases h
    have hsigned' := signed?_iff.1 hsigned
    have hskip := hreg.suffix (skipSpace_suffix ts)
    obtain ⟨rest, hitems, hr⟩ := ih (hskip.suffix hsigned'.suffix) hrec
    exact ⟨rest, .more (gap_skipSpace ts) hsigned' ((hsigned'.numeral hskip).1 hn) hitems, hr⟩
  | case2 ts hnone =>
    rw [numbersOf_of_none hnone] at h
    obtain ⟨-, -, h⟩ := bind_eq_ok_iff.1 h
    cases h
    exact ⟨ts, items_done hnone, rfl⟩

theorem signed_of_negativeOf {m : Token} {n : Int64} (hm : isMinus m = true)
    (hreg : Regular (m :: ts)) (h : negativeOf ts = .ok (n, r)) :
    ∃ token, Signed (m :: ts) true token r ∧ Numeral true token n := by
  cases ts with
  | nil => cases h
  | cons t ts =>
    by_cases ht : t.kind = .number
    · rw [negativeOf_of_number ht] at h
      obtain ⟨n', hn, h⟩ := bind_eq_ok_iff.1 h
      cases h
      have hsigned := Signed.negated (isMinus_iff.1 hm) ht r
      exact ⟨t, hsigned, (hsigned.numeral hreg).1 hn⟩
    · rw [negativeOf_of_ne ht] at h
      cases h

theorem signed_of_signedOf {t : Token} {n : Int64} (ht : OpensLiteral t)
    (hreg : Regular (t :: ts)) (h : signedOf (t :: ts) = .ok (n, r)) :
    ∃ negative token, Signed (t :: ts) negative token r ∧ Numeral negative token n := by
  rcases ht with ht | ht
  · rw [signedOf_of_number ht] at h
    obtain ⟨n', hn, h⟩ := bind_eq_ok_iff.1 h
    cases h
    have hsigned := Signed.plain ht ts
    exact ⟨false, t, hsigned, (hsigned.numeral hreg).1 hn⟩
  · rw [signedOf_of_minus ht] at h
    obtain ⟨token, hsigned, hn⟩ := signed_of_negativeOf ht hreg h
    exact ⟨true, token, hsigned, hn⟩

theorem name_of_refOf {t : Token} {e : Expr} (h : refOf bound t = .ok e) :
    bound t.text = true ∧ e = .ref t.text := by
  unfold refOf at h
  split_ifs at h with hb
  exact ⟨hb, (Except.ok.inj h).symm⟩

theorem term_of_termOf {e : Expr} (hreg : Regular ts) (h : termOf twice bound ts = .ok (e, r)) :
    ∃ rest, Term bound ts e rest ∧ skipSpace r = skipSpace rest := by
  -- an operand behind a unary operator has fewer tokens before it
  induction hlen : ts.length using Nat.strong_induction_on generalizing ts e with
  | _ len ih =>
    subst hlen
    cases ts with
    | nil =>
      rw [termOf] at h
      cases h
    | cons t ts =>
      rcases term_cases t with ht | ht | ht | ⟨hn, hi, hm, hu⟩
      · rw [termOf_of_literal ht] at h
        obtain ⟨⟨n, us⟩, hn, h⟩ := bind_eq_ok_iff.1 h
        obtain ⟨⟨ns, r'⟩, hns, h⟩ := bind_eq_ok_iff.1 h
        cases h
        obtain ⟨negative, token, hsigned, hnumeral⟩ := signed_of_signedOf ht hreg hn
        have hus := hreg.suffix hsigned.suffix
        obtain ⟨rest, hitems, rfl⟩ := items_of_numbersOf hus hns
        obtain ⟨v, hv⟩ := exists_literal n ns
        have hskip := skipSpace_skipSpace (hus.suffix hitems.suffix)
        rw [ofNumbers_eq_iff.2 hv]
        exact ⟨rest, .vector hsigned hnumeral hitems hv, hskip⟩
      · rw [termOf_of_identifier ht] at h
        obtain ⟨e', he, h⟩ := bind_eq_ok_iff.1 h
        cases h
        obtain ⟨hb, rfl⟩ := name_of_refOf he
        exact ⟨r, .name ht hb r, rfl⟩
      · rw [termOf_of_unary ht] at h
        obtain ⟨⟨e', r'⟩, he, h⟩ := bind_eq_ok_iff.1 h
        cases h
        have hle := length_skipSpace_le ts
        obtain ⟨rest, hterm, hr⟩ := ih (skipSpace ts).length (Nat.lt_succ_of_le hle)
          (hreg.tail.suffix (skipSpace_suffix ts)) he rfl
        exact ⟨rest, .unary ht (gap_skipSpace ts) hterm, hr⟩
      · rw [termOf_of_other hn hi hm hu] at h
        cases h

/-! ## Chains -/

/-- A derived chain is extended as long as the parser goes on. -/
theorem chain_of_chainOf {left e : Expr} {r' : List Token} (hreg : Regular ts)
    (hleft : Chain bound ts left us) (hr : skipSpace r = skipSpace us)
    (h : chainOf twice bound left r = .ok (e, r')) :
    ∃ rest, Chain bound ts e rest ∧ r' = skipSpace rest := by
  -- each turn of the loop adds one link to the chain derived so far, and leaves fewer tokens
  induction hlen : r.length using Nat.strong_induction_on generalizing left us r with
  | _ len ih =>
    subst hlen
    have hus := hreg.suffix hleft.suffix
    have hle := length_skipSpace_le r
    have hgap := gap_skipSpace us
    cases hskip : skipSpace r with
    | nil =>
      rw [chainOf_of_nil hskip] at h
      cases h
      exact ⟨us, hleft, hskip.symm.trans hr⟩
    | cons t after =>
      rw [hskip, List.length_cons] at hle
      rw [← hr, hskip] at hgap
      have hafter := (hus.suffix hgap.suffix).tail
      rcases link_cases t with hk | ht | ht | ⟨hk, hu, hb⟩
      · rw [chainOf_of_ne hskip hk] at h
        cases h
        exact ⟨us, hleft, hskip.symm.trans hr⟩
      · rw [chainOf_of_unary hskip ht] at h
        exact ih after.length (by omega) (.unary hleft hgap ht) rfl h rfl
      · rw [chainOf_of_binary hskip ht] at h
        obtain ⟨⟨right, r₁⟩, hterm, h⟩ := bind_eq_ok_iff.1 h
        have hlen := length_of_termOf hterm
        have hle' := length_skipSpace_le after
        obtain ⟨rest, hright, hr₁⟩ := term_of_termOf (hafter.suffix (skipSpace_suffix after)) hterm
        exact ih r₁.length (by omega) (.binary hleft hgap ht (gap_skipSpace after) hright) hr₁ h rfl
      · rw [chainOf_of_unknown hskip hk hu hb] at h
        cases h

/-! ## Lines -/

theorem endOf_eq_ok_iff {u : Unit} (hreg : Regular ts) :
    endOf ts = .ok (u, r) ↔ r = [] ∧ End ts := by
  cases hskip : skipSpace ts with
  | nil =>
    rw [endOf, hskip]
    constructor
    · intro h
      cases h
    · rintro ⟨-, t, ht, hgap⟩
      rw [hgap.skipSpace_of_ne (ne_of_kind ht (by decide))] at hskip
      cases hskip
  | cons t after =>
    rw [endOf, hskip]
    dsimp only
    have hgap := gap_skipSpace ts
    rw [hskip] at hgap
    by_cases he : t.kind = .eof
    · have hlast := hreg.eof_last t after hgap.suffix he
      rw [if_pos he, hlast]
      rw [hlast] at hgap
      constructor
      · intro h
        cases h
        exact ⟨rfl, t, he, hgap⟩
      · rintro ⟨rfl, -⟩
        rfl
    · rw [if_neg he]
      constructor
      · intro h
        split_ifs at h
      · rintro ⟨-, z, hz, hgap'⟩
        rw [hgap'.skipSpace_of_ne (ne_of_kind hz (by decide))] at hskip
        cases hskip
        exact absurd hz he

theorem assigned_of_assignedOf {e : Expr} (hreg : Regular ts)
    (h : assignedOf bound ts = .ok (e, r)) : ∃ us, Gap ts us ∧ Assigned bound us e r := by
  have hgap := gap_skipSpace ts
  cases hskip : skipSpace ts with
  | nil =>
    rw [assignedOf, hskip] at h
    cases h
  | cons t after =>
    rw [hskip] at hgap
    have hafter := hreg.suffix hgap.suffix
    refine ⟨t :: after, hgap, ?_⟩
    rw [assignedOf, hskip] at h
    dsimp only at h
    split_ifs at h with hi hn hm
    · obtain ⟨e', he, h⟩ := bind_eq_ok_iff.1 h
      cases h
      obtain ⟨hb, rfl⟩ := name_of_refOf he
      exact .name hi hb r
    · obtain ⟨n, hn', h⟩ := bind_eq_ok_iff.1 h
      cases h
      have hsigned := Signed.plain hn r
      exact .number hsigned ((hsigned.numeral hafter).1 hn')
    · obtain ⟨⟨n, r'⟩, hn', h⟩ := bind_eq_ok_iff.1 h
      cases h
      obtain ⟨token, hsigned, hnumeral⟩ := signed_of_negativeOf hm hafter hn'
      exact .number hsigned hnumeral

theorem end_of_closeOf {left e : Expr} {ts : List Token} (hreg : Regular ts)
    (hleft : Chain bound ts left us) (hr : skipSpace r = skipSpace us)
    (h : closeOf twice bound left r = .ok (e, rest)) :
    ∃ after, Chain bound ts e after ∧ End after ∧ rest = [] := by
  obtain ⟨⟨e', r₁⟩, hchain, h⟩ := bind_eq_ok_iff.1 h
  obtain ⟨⟨u, r₂⟩, hend, h⟩ := bind_eq_ok_iff.1 h
  cases h
  obtain ⟨after, hafter, rfl⟩ := chain_of_chainOf hreg hleft hr hchain
  have hreg' := hreg.suffix hafter.suffix
  obtain ⟨rfl, t, ht, hgap⟩ := (endOf_eq_ok_iff (hreg'.suffix (skipSpace_suffix after))).1 hend
  refine ⟨after, hafter, ⟨t, ht, ?_⟩, rfl⟩
  have hskip := hgap.skipSpace_of_ne (ne_of_kind ht (by decide))
  rw [skipSpace_skipSpace hreg'] at hskip
  exact hskip ▸ gap_skipSpace after

/-- What the parser makes of a line is derived from its tokens, all of which have been read. -/
theorem line_of_lineOf {e : Expr} (hreg : Regular ts) (h : lineOf twice bound ts = .ok (e, r)) :
    Line bound ts e ∧ r = [] := by
  have hgap := gap_skipSpace ts
  cases hskip : skipSpace ts with
  | nil =>
    rw [lineOf, hskip] at h
    cases h
  | cons t after =>
    rw [hskip] at hgap
    have hword := hreg.suffix hgap.suffix
    have hafter := hword.tail
    rw [lineOf, hskip] at h
    dsimp only at h
    by_cases he : t.kind = .eof
    · rw [if_pos he] at h
      cases h
    rw [if_neg he] at h
    by_cases hi : t.kind = .identifier
    · rw [if_pos hi] at h
      have hgap' := gap_skipSpace after
      cases hskip' : skipSpace after with
      | nil =>
        rw [hskip'] at h
        cases h
      | cons follow after' =>
        rw [hskip'] at h hgap'
        dsimp only at h
        have hvalue := (hafter.suffix hgap'.suffix).tail
        by_cases ha : follow.kind = .assign
        · rw [if_pos ha] at h
          obtain ⟨⟨value, r₁⟩, hassigned, h⟩ := bind_eq_ok_iff.1 h
          obtain ⟨⟨u, r₂⟩, hend, h⟩ := bind_eq_ok_iff.1 h
          cases h
          obtain ⟨us, hgap'', hvalue'⟩ := assigned_of_assignedOf hvalue hassigned
          have hrest := (hvalue.suffix hgap''.suffix).suffix hvalue'.suffix
          obtain ⟨rfl, hend'⟩ := (endOf_eq_ok_iff hrest).1 hend
          exact ⟨.assign hgap hi hgap' ha hgap'' hvalue' hend', rfl⟩
        · rw [if_neg ha] at h
          obtain ⟨e', he', h⟩ := bind_eq_ok_iff.1 h
          obtain ⟨hb, rfl⟩ := name_of_refOf he'
          -- the parser has stepped back over the token behind the name, but not over a space
          have hr : skipSpace (follow :: after') = skipSpace after := by
            rw [← hskip', skipSpace_skipSpace hafter]
          obtain ⟨rest, hchain, hend, hr⟩ :=
            end_of_closeOf hword (.term (.name hi hb after)) hr h
          exact ⟨.chain hgap hchain hend, hr⟩
    · rw [if_neg hi] at h
      obtain ⟨⟨e', r'⟩, hterm, h⟩ := bind_eq_ok_iff.1 h
      obtain ⟨rest, hterm', hr⟩ := term_of_termOf hword hterm
      obtain ⟨rest', hchain, hend, hr⟩ := end_of_closeOf hword (.term hterm') hr h
      exact ⟨.chain hgap hchain hend, hr⟩

end VectorCalc.Expr.Grammar
