import Mathlib
import VectorCalc.Proofs.Expr.Recognition

/-!
# Where the faults of a parser come from

A parser has four sorts of faults, each to be blamed on one token of its line (`Blamed`): a problem at
the token, a name that is not bound, a number of more digits than are read, and a step back that is
refused. The lemmas go through the parts of a line. Each has a fault for which a token before it is to
blame, or it leaves some of these tokens, the end token among them (`Accounts`). So no part ever runs
out of tokens, and `blamed_lineOf` holds of the whole line.

Where every step back is granted the fourth sort does not occur (`plain_lineOf`).
-/

namespace VectorCalc

/-! ## Faults of a parser -/

/-- The problem is the refusal of a step back. -/
def Problem.isRefusal : Problem → Bool
  | .retractionExhausted _ _ => true
  | _ => false

/-- The fault is the refusal of a step back. -/
def Fault.isRefusal : Fault → Bool
  | .malformed problem _ _ _ => problem.isRefusal
  | _ => false

namespace Expr.Parse

open Token

/-- A number of more digits than are read, but no more significant ones than a word may have. -/
def Overlong (t : Token) : Prop :=
  t.kind = .number ∧ Text.digitLimit < t.text.toList.length ∧
    (t.text.toList.dropWhile (· = '0')).length ≤ significantLimit

section

variable (twice : Token → Except Fault Unit) (bound : String → Bool)

/-- One of the tokens is to blame for the fault. -/
inductive Blamed (ts : List Token) : Fault → Prop where
  | problem {t : Token} {problem : Problem} (ht : t ∈ ts) (hp : problem.isRefusal = false)
    (expected : List String) : Blamed ts (faultAt t problem expected)
  | name {t : Token} (ht : t ∈ ts) (hkind : t.kind = .identifier) (hb : bound t.text = false) :
    Blamed ts (.undefined (.text t.text))
  | digits {t : Token} (ht : t ∈ ts) (h : Overlong t) :
    Blamed ts (.outOfDomain (.digits t.text.toList.length))
  | refused {t : Token} {f : Fault} (ht : t ∈ ts) (hf : twice t = .error f) : Blamed ts f

/-- The tokens end with an end token. -/
def Ended (ts : List Token) : Prop := ∃ z, ts.getLast? = some z ∧ z.kind = .eof

/-- A part of a line has a fault for which a token is to blame, or it leaves some of the tokens, the
end among them. -/
structure Accounts {α : Type} (ts : List Token) (o : Except Fault (α × List Token)) : Prop where
  blamed : FailsOnly (Blamed twice bound ts) o
  left : ∀ a rest, o = .ok (a, rest) → rest <:+ ts ∧ Ended rest

end

variable {α β : Type} {twice : Token → Except Fault Unit} {bound : String → Bool}
  {ts us rest : List Token}

/-! ## The end stays in sight -/

theorem Ended.ne_nil (h : Ended ts) : ts ≠ [] := by
  obtain ⟨z, hz, -⟩ := h
  rintro rfl
  cases hz

theorem Ended.suffix (h : Ended ts) (hrest : rest <:+ ts) (hne : rest ≠ []) : Ended rest := by
  obtain ⟨z, hz, hkind⟩ := h
  obtain ⟨front, rfl⟩ := hrest
  rw [List.getLast?_append_of_ne_nil _ hne] at hz
  exact ⟨z, hz, hkind⟩

/-- A token that is no end token has others behind it. -/
theorem Ended.tail {t : Token} (h : Ended (t :: ts)) (ht : t.kind ≠ .eof) : Ended ts := by
  refine h.suffix (List.suffix_cons t ts) ?_
  rintro rfl
  obtain ⟨z, hz, hkind⟩ := h
  cases hz
  exact ht hkind

theorem Ended.skipSpace (h : Ended ts) : Ended (skipSpace ts) := by
  cases ts with
  | nil => exact h
  | cons t ts =>
    by_cases ht : t.kind = .space
    · rw [skipSpace_of_space ht]
      exact h.tail (ne_of_kind ht (by decide))
    · rw [skipSpace_of_ne ht]
      exact h

theorem ended_tokenize (source : String) : Ended (tokenize source) :=
  ⟨_, (tiles_tokenize source).getLast?_eq, rfl⟩

/-! ## Parts in sequence -/

/-- A token that is left was there before. -/
theorem Blamed.mono {f : Fault} (h : Blamed twice bound us f) (hsub : us <:+ ts) :
    Blamed twice bound ts f := by
  cases h with
  | problem ht hp expected => exact .problem (hsub.mem ht) hp expected
  | name ht hkind hb => exact .name (hsub.mem ht) hkind hb
  | digits ht h => exact .digits (hsub.mem ht) h
  | refused ht hf => exact .refused (hsub.mem ht) hf

theorem failsOnly_mono {o : Except Fault α} (h : FailsOnly (Blamed twice bound us) o)
    (hsub : us <:+ ts) : FailsOnly (Blamed twice bound ts) o :=
  h.mono fun _ hf => hf.mono hsub

theorem failsOnly_faultAt {t : Token} {problem : Problem} {expected : List String} (ht : t ∈ ts)
    (hp : problem.isRefusal = false) :
    FailsOnly (Blamed twice bound ts) (.error (faultAt t problem expected) : Except Fault α) :=
  failsOnly_error (.problem ht hp expected)

theorem accounts_error {f : Fault}
    (h : FailsOnly (Blamed twice bound ts) (.error f : Except Fault (α × List Token))) :
    Accounts twice bound ts (.error f : Except Fault (α × List Token)) :=
  ⟨h, nofun⟩

theorem accounts_ok (a : α) (hsub : rest <:+ ts) (h : Ended rest) :
    Accounts twice bound ts (.ok (a, rest)) := by
  refine ⟨failsOnly_ok _, fun a' rest' ho => ?_⟩
  cases ho
  exact ⟨hsub, h⟩

theorem Accounts.mono {o : Except Fault (α × List Token)} (h : Accounts twice bound us o)
    (hsub : us <:+ ts) : Accounts twice bound ts o :=
  ⟨failsOnly_mono h.blamed hsub, fun a rest ho => ⟨(h.left a rest ho).1.trans hsub,
    (h.left a rest ho).2⟩⟩

/-- A part that begins with the outcome of one token. -/
theorem accounts_bind {o : Except Fault α} {k : α → Except Fault (β × List Token)}
    (h : FailsOnly (Blamed twice bound ts) o)
    (hk : ∀ a, o = .ok a → Accounts twice bound ts (k a)) : Accounts twice bound ts (o >>= k) := by
  refine ⟨h.bind fun a ho => (hk a ho).blamed, fun b rest hb => ?_⟩
  obtain ⟨a, ho, hka⟩ := bind_eq_ok_iff.1 hb
  exact (hk a ho).left b rest hka

/-- What follows a part may rely on the end being there. -/
theorem Accounts.failsOnly_bind {o : Except Fault (α × List Token)}
    {k : α × List Token → Except Fault β} (h : Accounts twice bound ts o)
    (hk : ∀ a rest, o = .ok (a, rest) → Ended rest →
      FailsOnly (Blamed twice bound rest) (k (a, rest))) :
    FailsOnly (Blamed twice bound ts) (o >>= k) := by
  refine h.blamed.bind fun p ho => ?_
  obtain ⟨a, rest⟩ := p
  obtain ⟨hsub, hended⟩ := h.left a rest ho
  exact failsOnly_mono (hk a rest ho hended) hsub

theorem Accounts.bind {o : Except Fault (α × List Token)}
    {k : α × List Token → Except Fault (β × List Token)} (h : Accounts twice bound ts o)
    (hk : ∀ a rest, o = .ok (a, rest) → Ended rest → Accounts twice bound rest (k (a, rest))) :
    Accounts twice bound ts (o >>= k) := by
  refine ⟨h.failsOnly_bind fun a rest ho he => (hk a rest ho he).blamed, fun b rest' hb => ?_⟩
  obtain ⟨⟨a, rest⟩, ho, hka⟩ := bind_eq_ok_iff.1 hb
  obtain ⟨hsub, hended⟩ := h.left a rest ho
  exact ((hk a rest ho hended).mono hsub).left b rest' hka

theorem Accounts.map {o : Except Fault (α × List Token)} (h : Accounts twice bound ts o)
    (g : α → β) :
    Accounts twice bound ts (o >>= fun p => .ok (g p.1, p.2)) :=
  h.bind fun _ rest _ he => accounts_ok _ (List.suffix_refl rest) he

/-! ## Numbers and names -/

theorem failsOnly_number {t : Token} (ht : t ∈ ts) (hkind : t.kind = .number) (negative : Bool) :
    FailsOnly (Blamed twice bound ts) (number negative t) := by
  rw [number_eq]
  split_ifs with hsig hlen
  · exact failsOnly_faultAt ht rfl
  · exact failsOnly_error (.digits ht ⟨hkind, hlen, Nat.le_of_not_lt hsig⟩)
  · exact failsOnly_ok _
  · exact failsOnly_faultAt ht rfl

theorem failsOnly_refOf {t : Token} (ht : t ∈ ts) (hkind : t.kind = .identifier) :
    FailsOnly (Blamed twice bound ts) (refOf bound t) := by
  unfold refOf
  split
  · exact failsOnly_ok _
  · next hb => exact failsOnly_error (.name ht hkind (Bool.eq_false_iff.2 hb))

/-- A number token in front is read or to blame. -/
theorem accounts_number {t : Token} (he : Ended (t :: ts)) (hkind : t.kind = .number)
    (negative : Bool) (g : Int64 → α) :
    Accounts twice bound (t :: ts) (do
      let n ← number negative t
      .ok (g n, ts)) :=
  accounts_bind (failsOnly_number List.mem_cons_self hkind negative) fun _ _ =>
    accounts_ok _ (List.suffix_cons t ts) (he.tail (ne_of_kind hkind (by decide)))

theorem accounts_refOf {t : Token} (he : Ended (t :: ts)) (hkind : t.kind = .identifier) :
    Accounts twice bound (t :: ts) (do
      let e ← refOf bound t
      .ok (e, ts)) :=
  accounts_bind (failsOnly_refOf List.mem_cons_self hkind) fun _ _ =>
    accounts_ok _ (List.suffix_cons t ts) (he.tail (ne_of_kind hkind (by decide)))

theorem accounts_negativeOf (he : Ended ts) : Accounts twice bound ts (negativeOf ts) := by
  cases ts with
  | nil => exact absurd rfl he.ne_nil
  | cons t ts =>
    by_cases ht : t.kind = .number
    · rw [negativeOf_of_number ht]
      exact accounts_number he ht true id
    · rw [negativeOf_of_ne ht]
      exact accounts_error (failsOnly_faultAt List.mem_cons_self rfl)

theorem accounts_signedOf {t : Token} (he : Ended (t :: ts)) (ht : OpensLiteral t) :
    Accounts twice bound (t :: ts) (signedOf (t :: ts)) := by
  rcases ht with ht | ht
  · rw [signedOf_of_number ht]
    exact accounts_number he ht false id
  · rw [signedOf_of_minus ht]
    have hts := he.tail (ne_of_kind (kind_of_isMinus ht) (by decide))
    exact (accounts_negativeOf hts).mono (List.suffix_cons t ts)

/-! ## Terms -/

theorem accounts_numbersOf (he : Ended ts) : Accounts twice bound ts (numbersOf twice ts) := by
  induction ts using numbersOf.induct with
  | case1 ts negative token after hsigned ih =>
    rw [numbersOf_of_signed hsigned]
    have hsigned' := Grammar.signed?_iff.1 hsigned
    have hskip := Grammar.skipSpace_suffix ts
    -- the number is one of the tokens, and the end stands behind it
    obtain ⟨hmem, hkind, hafter⟩ :
        token ∈ skipSpace ts ∧ token.kind = .number ∧ Ended after := by
      have hended := he.skipSpace
      generalize skipSpace ts = us at hsigned' hended
      cases hsigned' with
      | plain hkind =>
        exact ⟨List.mem_cons_self, hkind, hended.tail (ne_of_kind hkind (by decide))⟩
      | negated hm hkind =>
        exact ⟨List.mem_cons_of_mem _ List.mem_cons_self, hkind,
          (hended.tail (ne_of_kind hm.1 (by decide))).tail
            (ne_of_kind hkind (by decide))⟩
    refine accounts_bind (failsOnly_number (hskip.mem hmem) hkind negative) fun n _ => ?_
    exact ((ih hafter).map _).mono (hsigned'.suffix.trans hskip)
  | case2 ts hnone =>
    rw [numbersOf_of_none hnone]
    have hskip := Grammar.skipSpace_suffix ts
    rcases Grammar.stepBack_cases (skipSpace ts) with hback | ⟨m, a, after, f, hts, -, ha, hback⟩
    · rw [hback]
      exact accounts_ok _ hskip he.skipSpace
    · -- the second step back is refused over the token behind the minus sign
      rw [hback]
      have hmem : a ∈ skipSpace ts := hts ▸ List.mem_cons_of_mem _ List.mem_cons_self
      exact accounts_error (failsOnly_error (.refused (hskip.mem hmem) ha))

theorem accounts_termOf (he : Ended ts) : Accounts twice bound ts (termOf twice bound ts) := by
  -- an operand behind a unary operator has fewer tokens before it
  induction hlen : ts.length using Nat.strong_induction_on generalizing ts with
  | _ len ih =>
    subst hlen
    cases ts with
    | nil => exact absurd rfl he.ne_nil
    | cons t ts =>
      rcases term_cases t with ht | ht | ht | ⟨hn, hi, hm, hu⟩
      · rw [termOf_of_literal ht]
        exact (accounts_signedOf he ht).bind fun n rest _ hrest =>
          (accounts_numbersOf hrest).map _
      · rw [termOf_of_identifier ht]
        exact accounts_refOf he ht
      · rw [termOf_of_unary ht]
        have hts := he.tail (ne_of_kind (isUnary_iff.1 ht).1 (by decide))
        have hlt := Nat.lt_succ_of_le (length_skipSpace_le ts)
        have hsub := (Grammar.skipSpace_suffix ts).trans (List.suffix_cons t ts)
        exact ((ih (skipSpace ts).length hlt hts.skipSpace rfl).mono hsub).map _
      · rw [termOf_of_other hn hi hm hu]
        exact accounts_error (failsOnly_faultAt List.mem_cons_self rfl)

/-! ## Chains -/

theorem accounts_chainOf (left : Expr) (he : Ended ts) :
    Accounts twice bound ts (chainOf twice bound left ts) := by
  -- each turn of the loop leaves fewer tokens, the end still among them
  induction hlen : ts.length using Nat.strong_induction_on generalizing left ts with
  | _ len ih =>
    subst hlen
    have hle := length_skipSpace_le ts
    have hsub := Grammar.skipSpace_suffix ts
    have hword := he.skipSpace
    cases hskip : skipSpace ts with
    | nil => exact absurd hskip hword.ne_nil
    | cons t after =>
      rw [hskip, List.length_cons] at hle
      rw [hskip] at hsub hword
      have hafter := (List.suffix_cons t after).trans hsub
      rcases link_cases t with hk | ht | ht | ⟨hk, hu, hb⟩
      · rw [chainOf_of_ne hskip hk]
        exact accounts_ok _ hsub hword
      · rw [chainOf_of_unary hskip ht]
        have hended := hword.tail (ne_of_kind (isUnary_iff.1 ht).1 (by decide))
        exact (ih after.length (by omega) _ hended rfl).mono hafter
      · rw [chainOf_of_binary hskip ht]
        have hended := hword.tail (ne_of_kind (isBinary_iff.1 ht).1 (by decide))
        have hterm : Accounts twice bound (skipSpace after)
            (termOf twice bound (skipSpace after)) := accounts_termOf hended.skipSpace
        refine (hterm.bind fun right rest hright hrest => ?_).mono
          ((Grammar.skipSpace_suffix after).trans hafter)
        have hlen := length_of_termOf hright
        have hle' := length_skipSpace_le after
        exact ih rest.length (by omega) _ hrest rfl
      · rw [chainOf_of_unknown hskip hk hu hb]
        exact accounts_error (failsOnly_faultAt (hsub.mem List.mem_cons_self) rfl)

/-! ## Lines -/

theorem blamed_endOf (he : Ended ts) : FailsOnly (Blamed twice bound ts) (endOf ts) := by
  have hsub := Grammar.skipSpace_suffix ts
  unfold endOf
  cases hskip : skipSpace ts with
  | nil => exact absurd hskip he.skipSpace.ne_nil
  | cons t after =>
    rw [hskip] at hsub
    have ht := hsub.mem List.mem_cons_self
    dsimp only
    split_ifs
    · exact failsOnly_ok _
    · exact failsOnly_faultAt ht rfl
    · exact failsOnly_faultAt ht rfl

theorem accounts_assignedOf (he : Ended ts) : Accounts twice bound ts (assignedOf bound ts) := by
  have hsub := Grammar.skipSpace_suffix ts
  have hword := he.skipSpace
  unfold assignedOf
  cases hskip : skipSpace ts with
  | nil => exact absurd hskip hword.ne_nil
  | cons t after =>
    rw [hskip] at hsub hword
    refine Accounts.mono ?_ hsub
    dsimp only
    split_ifs with hi hn hm
    · exact accounts_refOf hword hi
    · exact accounts_number hword hn false _
    · have hafter := hword.tail (ne_of_kind (kind_of_isMinus hm) (by decide))
      exact ((accounts_negativeOf hafter).map (ofNumbers · [])).mono (List.suffix_cons t after)
    · exact accounts_error (failsOnly_faultAt List.mem_cons_self rfl)

theorem blamed_closeOf (left : Expr) (he : Ended ts) :
    FailsOnly (Blamed twice bound ts) (closeOf twice bound left ts) :=
  (accounts_chainOf left he).failsOnly_bind fun _ _ _ hrest =>
    (blamed_endOf hrest).bind fun _ _ => failsOnly_ok _

/-- Whatever fault a line has, one of its tokens is to blame. -/
theorem blamed_lineOf (he : Ended ts) :
    FailsOnly (Blamed twice bound ts) (lineOf twice bound ts) := by
  have hsub := Grammar.skipSpace_suffix ts
  have hword := he.skipSpace
  unfold lineOf
  cases hskip : skipSpace ts with
  | nil => exact absurd hskip hword.ne_nil
  | cons t after =>
    rw [hskip] at hsub hword
    refine failsOnly_mono ?_ hsub
    dsimp only
    by_cases heof : t.kind = .eof
    · rw [if_pos heof]
      exact failsOnly_faultAt List.mem_cons_self rfl
    rw [if_neg heof]
    by_cases hi : t.kind = .identifier
    · rw [if_pos hi]
      have hafter := hword.tail heof
      have hfollow := hafter.skipSpace
      have hsub' := (Grammar.skipSpace_suffix after).trans (List.suffix_cons t after)
      cases hskip' : skipSpace after with
      | nil => exact absurd hskip' hfollow.ne_nil
      | cons follow after' =>
        rw [hskip'] at hfollow hsub'
        dsimp only
        split_ifs with ha
        · -- a name is assigned to, whether or not it is bound
          have hvalue := hfollow.tail (ne_of_kind ha (by decide))
          refine failsOnly_mono ?_ ((List.suffix_cons follow after').trans hsub')
          exact (accounts_assignedOf hvalue).failsOnly_bind fun _ _ _ hrest =>
            (blamed_endOf hrest).bind fun _ _ => failsOnly_ok _
        · exact (failsOnly_refOf List.mem_cons_self hi).bind fun e _ =>
            failsOnly_mono (blamed_closeOf e hfollow) hsub'
    · rw [if_neg hi]
      exact (accounts_termOf hword).failsOnly_bind fun e _ _ hrest => blamed_closeOf e hrest

/-! ## A tape refuses nothing -/

/-- The outcome is no refusal of a step back. -/
def Plain (o : Except Fault α) : Prop := ∀ f, o = .error f → f.isRefusal = false

theorem isRefusal_faultAt {problem : Problem} (token : Token) (expected : List String)
    (h : problem.isRefusal = false) : (faultAt token problem expected).isRefusal = false := by
  unfold faultAt
  split
  · rfl
  · exact h

/-- Where every step back is granted, no line ends in a refusal. -/
theorem plain_lineOf (he : Ended ts) : Plain (lineOf Tape.twice bound ts) := by
  intro f hf
  have hblamed : Blamed Tape.twice bound ts f := blamed_lineOf he f hf
  cases hblamed with
  | problem ht hp expected => exact isRefusal_faultAt _ expected hp
  | name => rfl
  | digits => rfl
  | refused ht hf => cases hf

end Expr.Parse

/-! ## Faults of a line -/

open Token Expr.Parse

variable {s : Settings} {source : String} {b : Bindings} {f : Fault}

/-- A line that cannot be parsed has a token that is to blame, unless no cursor is granted at all. -/
theorem Expr.blamed_of_parse (h : Expr.parse s b source = .error f) :
    (Cursor.capacityLimit < s.capacity ∧ f = .outOfDomain .capacityTooLarge) ∨
      Blamed (Cursor.twice s.capacity) b.contains (tokenize source) f := by
  by_cases hle : (s.capacity : Int) ≤ Cursor.capacityLimit
  · right
    rw [Expr.parse_eq_lineOf (Cursor.ofText?_of_le source s.capacity_pos hle)] at h
    cases hline : lineOf (Cursor.twice s.capacity) b.contains (tokenize source) with
    | error f' =>
      rw [hline] at h
      cases h
      exact blamed_lineOf (ended_tokenize source) f hline
    | ok p =>
      rw [hline] at h
      cases h
  · left
    have hc : Cursor.ofText? source s.capacity = .error (.outOfDomain .capacityTooLarge) := by
      simp [Cursor.ofText?, s.capacity_pos, hle]
    rw [Expr.parse, hc] at h
    cases h
    exact ⟨Int.lt_of_not_ge hle, rfl⟩

end VectorCalc
