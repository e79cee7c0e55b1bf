import Mathlib
import VectorCalc.Expr.Parse
import VectorCalc.Proofs.Outcome
import VectorCalc.Proofs.Token.Rereading

/-!
# Parsing a list of tokens

The parser reads from a source that it can rewind. For reasoning it is simpler to see it as a set of
functions on the list of tokens that are left, which give the expression together with the tokens
behind it. These functions need no source, no steps back and no bound on their loops. They are
`numbersOf`, `termOf`, `chainOf`, `assignedOf`, `endOf` and `lineOf`, one for each part of a line.

The one thing that a source can show to the parser is whether it grants two steps back in a row. The
functions take the answer to that as a parameter, `twice`.
-/

namespace VectorCalc.Expr.Parse

open Token

/-! ## Lists of tokens -/

/-- The tokens behind one space, if a space stands in front. -/
def skipSpace : List Token → List Token
  | [] => []
  | t :: ts => if t.kind = .space then ts else t :: ts

theorem skipSpace_of_space {t : Token} (h : t.kind = .space) (ts : List Token) :
    skipSpace (t :: ts) = ts := if_pos h

theorem skipSpace_of_ne {t : Token} (h : t.kind ≠ .space) (ts : List Token) :
    skipSpace (t :: ts) = t :: ts := if_neg h

theorem length_skipSpace_le (ts : List Token) : (skipSpace ts).length ≤ ts.length := by
  cases ts with
  | nil => exact Nat.le_refl _
  | cons t ts =>
    by_cases h : t.kind = .space
    · rw [skipSpace_of_space h, List.length_cons]
      exact Nat.le_succ _
    · rw [skipSpace_of_ne h]

/-- A token has one kind. -/
theorem ne_of_kind {t : Token} {k k' : Kind} (h : t.kind = k) (hk : k ≠ k') : t.kind ≠ k' := by
  rw [h]
  exact hk

/-- A minus sign is an operator. -/
theorem kind_of_isMinus {t : Token} (h : isMinus t = true) : t.kind = .operator := by
  simp only [isMinus, Bool.and_eq_true, decide_eq_true_eq] at h
  exact h.1

theorem text_of_isMinus {t : Token} (h : isMinus t = true) : t.text = "-" := by
  simp only [isMinus, Bool.and_eq_true, decide_eq_true_eq] at h
  exact h.2

/-- An operator that may stand before a term or behind a chain. -/
def isUnary (t : Token) : Bool := t.kind = .operator && (UnaryOp.ofSymbol? t.text).isSome

/-- An operator that may stand between a chain and a term. -/
def isBinary (t : Token) : Bool := t.kind = .operator && (BinaryOp.ofSymbol? t.text).isSome

theorem isUnary_iff {t : Token} :
    isUnary t = true ↔ t.kind = .operator ∧ (UnaryOp.ofSymbol? t.text).isSome = true := by
  simp only [isUnary, Bool.and_eq_true, decide_eq_true_eq]

theorem isBinary_iff {t : Token} :
    isBinary t = true ↔ t.kind = .operator ∧ (BinaryOp.ofSymbol? t.text).isSome = true := by
  simp only [isBinary, Bool.and_eq_true, decide_eq_true_eq]

theorem isUnary_eq {t : Token} (h : t.kind = .operator) :
    isUnary t = (UnaryOp.ofSymbol? t.text).isSome := by
  simp only [isUnary, h, decide_true, Bool.true_and]

theorem isBinary_eq {t : Token} (h : t.kind = .operator) :
    isBinary t = (BinaryOp.ofSymbol? t.text).isSome := by
  simp only [isBinary, h, decide_true, Bool.true_and]

/-- No operator stands both between operands and before or behind one. -/
theorem not_isUnary_of_isBinary {t : Token} (h : isBinary t = true) : isUnary t = false := by
  obtain ⟨-, hsymbol⟩ := isBinary_iff.1 h
  obtain ⟨op, hop⟩ := Option.isSome_iff_exists.1 hsymbol
  have htext := BinaryOp.ofSymbol?_eq_some_iff.1 hop
  have hnone : UnaryOp.ofSymbol? t.text = none := by
    rw [htext]
    cases op <;> rfl
  rw [isUnary, hnone]
  exact Bool.and_false _

/-- The number that stands in front: whether a minus sign belongs to it, its token, and the tokens
behind it. -/
def signed? : List Token → Option (Bool × Token × List Token)
  | [] => none
  | t :: ts =>
    if t.kind = .number then some (false, t, ts)
    else if isMinus t then
      match ts with
      | [] => none
      | a :: rest => if a.kind = .number then some (true, a, rest) else none
    else none

/-- A number stands in front as its own token, or behind a minus sign. -/
theorem signed?_eq_some_iff {ts rest : List Token} {negative : Bool} {token : Token} :
    signed? ts = some (negative, token, rest) ↔
      token.kind = .number ∧
        ((negative = false ∧ ts = token :: rest) ∨
          (negative = true ∧ ∃ m, isMinus m = true ∧ ts = m :: token :: rest)) := by
  constructor
  · intro h
    cases ts with
    | nil => cases h
    | cons t ts =>
      by_cases ht : t.kind = .number
      · simp only [signed?, ht, if_true, Option.some.injEq, Prod.mk.injEq] at h
        obtain ⟨rfl, rfl, rfl⟩ := h
        exact ⟨ht, .inl ⟨rfl, rfl⟩⟩
      · by_cases hm : isMinus t = true
        · cases ts with
          | nil => simp [signed?, ht, hm] at h
          | cons a ts =>
            by_cases ha : a.kind = .number
            · simp only [signed?, ht, hm, ha, if_true, if_false, Option.some.injEq,
                Prod.mk.injEq] at h
              obtain ⟨rfl, rfl, rfl⟩ := h
              exact ⟨ha, .inr ⟨rfl, t, hm, rfl⟩⟩
            · simp [signed?, ht, hm, ha] at h
        · simp [signed?, ht, hm] at h
  · rintro ⟨hkind, ⟨rfl, rfl⟩ | ⟨rfl, m, hm, rfl⟩⟩
    · simp [signed?, hkind]
    · simp [signed?, hkind, kind_of_isMinus hm, hm]

theorem length_of_signed? {ts rest : List Token} {negative : Bool} {token : Token}
    (h : signed? ts = some (negative, token, rest)) : rest.length < ts.length := by
  obtain ⟨-, ⟨-, rfl⟩ | ⟨-, m, -, rfl⟩⟩ := signed?_eq_some_iff.1 h
  · exact Nat.lt_succ_self _
  · exact Nat.lt_succ_of_lt (Nat.lt_succ_self _)

/-! ## Parts of a line -/

section

variable (twice : Token → Except Fault Unit) (bound : String → Bool)

/-- The steps back at the end of a vector: two of them if a minus sign has been read. -/
def stepBack : List Token → Except Fault Unit
  | m :: a :: _ => if isMinus m then twice a else .ok ()
  | _ => .ok ()

/-- The further numbers of a vector. -/
def numbersOf (ts : List Token) : Except Fault (List Int64 × List Token) :=
  match _ : signed? (skipSpace ts) with
  | some (negative, token, rest) => do
    let n ← number negative token
    let (ns, rest) ← numbersOf rest
    .ok (n :: ns, rest)
  | none => do
    stepBack twice (skipSpace ts)
    .ok ([], skipSpace ts)
termination_by ts.length
decreasing_by exact Nat.lt_of_lt_of_le (length_of_signed? ‹_›) (length_skipSpace_le ts)

/-- The number behind a minus sign. -/
def negativeOf : List Token → Except Fault (Int64 × List Token)
  | [] => .error (faultAt (eof 0) .danglingMinus ["NUMBER"])
  | t :: ts =>
    if t.kind = .number then do
      let n ← number true t
      .ok (n, ts)
    else .error (faultAt t .danglingMinus ["NUMBER"])

/-- The number in front, which may have a minus sign. -/
def signedOf : List Token → Except Fault (Int64 × List Token)
  | [] => .error (faultAt (eof 0) .termMissing termStart)
  | t :: ts =>
    if t.kind = .number then do
      let n ← number false t
      .ok (n, ts)
    else negativeOf ts

/-- A reference to a bound name. -/
def refOf (token : Token) : Except Fault Expr :=
  if bound token.text then .ok (.ref token.text) else .error (.undefined (.text token.text))

/-- The term in front. -/
def termOf : List Token → Except Fault (Expr × List Token)
  | [] => .error (faultAt (eof 0) .termMissing termStart)
  | t :: ts =>
    match t.kind with
    | .number => do
      let n ← number false t
      let (ns, rest) ← numbersOf twice ts
      .ok (ofNumbers n ns, rest)
    | .identifier => do
      let e ← refOf bound t
      .ok (e, ts)
    | .operator =>
      if t.text = "-" then do
        let (n, rest) ← negativeOf ts
        let (ns, rest) ← numbersOf twice rest
        .ok (ofNumbers n ns, rest)
      else if (UnaryOp.ofSymbol? t.text).isSome then do
        let (e, rest) ← termOf (skipSpace ts)
        .ok (.unary t.text e, rest)
      else .error (faultAt t .termMissing termStart)
    | _ => .error (faultAt t .termMissing termStart)
termination_by ts => ts.length
decreasing_by exact Nat.lt_succ_of_le (length_skipSpace_le ts)

/-! ### What is behind a part is no longer than before -/

variable {twice bound} {ts rest : List Token}

theorem numbersOf_of_signed {negative : Bool} {token : Token}
    (h : signed? (skipSpace ts) = some (negative, token, rest)) :
    numbersOf twice ts = (do
      let n ← number negative token
      let (ns, rest) ← numbersOf twice rest
      .ok (n :: ns, rest)) := by
  rw [numbersOf]
  split
  · next h' =>
    rw [h] at h'
    cases h'
    rfl
  · next h' =>
    rw [h] at h'
    cases h'

theorem numbersOf_of_none (h : signed? (skipSpace ts) = none) :
    numbersOf twice ts = (do
      stepBack twice (skipSpace ts)
      .ok ([], skipSpace ts)) := by
  rw [numbersOf]
  split
  · next h' =>
    rw [h] at h'
    cases h'
  · rfl

theorem length_of_numbersOf {ns : List Int64} (h : numbersOf twice ts = .ok (ns, rest)) :
    rest.length ≤ ts.length := by
  induction ts using numbersOf.induct generalizing ns with
  | case1 ts negative token after hsigned ih =>
    rw [numbersOf_of_signed hsigned] at h
    obtain ⟨n, -, h⟩ := bind_eq_ok_iff.1 h
    obtain ⟨⟨ns', rest'⟩, hrec, h⟩ := bind_eq_ok_iff.1 h
    cases h
    have hlt := length_of_signed? hsigned
    have hle := length_skipSpace_le ts
    have := ih hrec
    omega
  | case2 ts hnone =>
    rw [numbersOf_of_none hnone] at h
    obtain ⟨-, -, h⟩ := bind_eq_ok_iff.1 h
    cases h
    exact length_skipSpace_le ts

theorem negativeOf_of_number {t : Token} (h : t.kind = .number) :
    negativeOf (t :: ts) = (do
      let n ← number true t
      .ok (n, ts)) := if_pos h

theorem negativeOf_of_ne {t : Token} (h : t.kind ≠ .number) :
    negativeOf (t :: ts) = .error (faultAt t .danglingMinus ["NUMBER"]) := if_neg h

theorem length_of_negativeOf {n : Int64} (h : negativeOf ts = .ok (n, rest)) :
    rest.length ≤ ts.length := by
  cases ts with
  | nil => cases h
  | cons t ts =>
    by_cases ht : t.kind = .number
    · rw [negativeOf_of_number ht] at h
      obtain ⟨n', -, h⟩ := bind_eq_ok_iff.1 h
      cases h
      exact Nat.le_succ _
    · rw [negativeOf_of_ne ht] at h
      cases h

theorem signedOf_of_number {t : Token} (h : t.kind = .number) :
    signedOf (t :: ts) = (do
      let n ← number false t
      .ok (n, ts)) := if_pos h

theorem signedOf_of_minus {t : Token} (h : isMinus t = true) :
    signedOf (t :: ts) = negativeOf ts :=
  if_neg (ne_of_kind (kind_of_isMinus h) (by decide))

theorem length_of_signedOf {t : Token} {n : Int64} (h : signedOf (t :: ts) = .ok (n, rest)) :
    rest.length ≤ ts.length := by
  by_cases ht : t.kind = .number
  · rw [signedOf_of_number ht] at h
    obtain ⟨n', -, h⟩ := bind_eq_ok_iff.1 h
    cases h
    exact Nat.le_refl _
  · rw [signedOf, if_neg ht] at h
    exact length_of_negativeOf h

/-! ### The term in front, by its first token -/

variable {t : Token}

theorem termOf_of_number (h : t.kind = .number) :
    termOf twice bound (t :: ts) = (do
      let n ← number false t
      let (ns, rest) ← numbersOf twice ts
      .ok (ofNumbers n ns, rest)) := by
  rw [termOf, h]

theorem termOf_of_identifier (h : t.kind = .identifier) :
    termOf twice bound (t :: ts) = (do
      let e ← refOf bound t
      .ok (e, ts)) := by
  rw [termOf, h]

theorem termOf_of_minus (h : isMinus t = true) :
    termOf twice bound (t :: ts) = (do
      let (n, rest) ← negativeOf ts
      let (ns, rest) ← numbersOf twice rest
      .ok (ofNumbers n ns, rest)) := by
  rw [termOf, kind_of_isMinus h]
  simp only [text_of_isMinus h, if_true]

theorem termOf_of_unary (h : isUnary t = true) :
    termOf twice bound (t :: ts) = (do
      let (e, rest) ← termOf twice bound (skipSpace ts)
      .ok (.unary t.text e, rest)) := by
  obtain ⟨hkind, hsymbol⟩ := isUnary_iff.1 h
  have hminus : t.text ≠ "-" := by
    intro hm
    rw [hm] at hsymbol
    cases hsymbol
  rw [termOf, hkind]
  simp only [hminus, hsymbol, if_true, if_false]

theorem termOf_of_other (hn : t.kind ≠ .number) (hi : t.kind ≠ .identifier)
    (hm : isMinus t = false) (hu : isUnary t = false) :
    termOf twice bound (t :: ts) = .error (faultAt t .termMissing termStart) := by
  rw [termOf]
  cases hkind : t.kind with
  | number => exact absurd hkind hn
  | identifier => exact absurd hkind hi
  | operator =>
    simp only [isMinus, hkind, decide_true, Bool.true_and, decide_eq_false_iff_not] at hm
    rw [isUnary_eq hkind] at hu
    simp only [hm, hu, if_false, Bool.false_eq_true]
  | _ => rfl

/-- A token with which a literal begins. -/
def OpensLiteral (t : Token) : Prop := t.kind = .number ∨ isMinus t = true

/-- A literal is its first number and the numbers behind it. -/
theorem termOf_of_literal (h : OpensLiteral t) :
    termOf twice bound (t :: ts) = (do
      let (n, rest) ← signedOf (t :: ts)
      let (ns, rest) ← numbersOf twice rest
      .ok (ofNumbers n ns, rest)) := by
  rcases h with h | h
  · rw [termOf_of_number h, signedOf_of_number h]
    cases number false t <;> rfl
  · rw [termOf_of_minus h, signedOf_of_minus h]

/-- What may stand in front: the beginning of a literal, an identifier, a unary operator, or a token
that begins no term. -/
theorem term_cases (t : Token) :
    OpensLiteral t ∨ t.kind = .identifier ∨ isUnary t = true ∨
      (t.kind ≠ .number ∧ t.kind ≠ .identifier ∧ isMinus t = false ∧ isUnary t = false) := by
  by_cases hn : t.kind = .number
  · exact .inl (.inl hn)
  by_cases hi : t.kind = .identifier
  · exact .inr (.inl hi)
  cases hm : isMinus t with
  | true => exact .inl (.inr hm)
  | false =>
    cases hu : isUnary t with
    | true => exact .inr (.inr (.inl rfl))
    | false => exact .inr (.inr (.inr ⟨hn, hi, rfl, rfl⟩))

theorem length_of_termOf {e : Expr} (h : termOf twice bound ts = .ok (e, rest)) :
    rest.length ≤ ts.length := by
  induction hlen : ts.length using Nat.strong_induction_on generalizing ts e with
  | _ len ih =>
    subst hlen
    cases ts with
    | nil => rw [termOf] at h; cases h
    | cons t ts =>
      rw [List.length_cons]
      rcases term_cases t with ht | ht | ht | ⟨hn, hi, hm, hu⟩
      · rw [termOf_of_literal ht] at h
        obtain ⟨⟨n, rest'⟩, hn, h⟩ := bind_eq_ok_iff.1 h
        obtain ⟨⟨ns, rest''⟩, hns, h⟩ := bind_eq_ok_iff.1 h
        cases h
        exact Nat.le_succ_of_le ((length_of_numbersOf hns).trans (length_of_signedOf hn))
      · rw [termOf_of_identifier ht] at h
        obtain ⟨e', -, h⟩ := bind_eq_ok_iff.1 h
        cases h
        exact Nat.le_succ _
      · rw [termOf_of_unary ht] at h
        obtain ⟨⟨e', rest'⟩, he, h⟩ := bind_eq_ok_iff.1 h
        cases h
        have hle := length_skipSpace_le ts
        have hrec := ih _ (Nat.lt_succ_of_le hle) he rfl
        omega
      · rw [termOf_of_other hn hi hm hu] at h
        cases h

end

section

variable (twice : Token → Except Fault Unit) (bound : String → Bool)

/-- The rest of a chain of which `left` has been read. -/
def chainOf (left : Expr) (ts : List Token) : Except Fault (Expr × List Token) :=
  match _ : skipSpace ts with
  | [] => .ok (left, [])
  | t :: rest =>
    if t.kind ≠ .operator then .ok (left, t :: rest)
    else if (UnaryOp.ofSymbol? t.text).isSome then chainOf (.unary t.text left) rest
    else if (BinaryOp.ofSymbol? t.text).isSome then
      match _ : termOf twice bound (skipSpace rest) with
      | .error f => .error f
      | .ok (right, rest') => chainOf (.binary t.text left right) rest'
    else .error (faultAt t (.unknownOperator t.text) [])
termination_by ts.length
decreasing_by
  · have hle := length_skipSpace_le ts
    simp_all only [List.length_cons]
    omega
  · have hle := length_skipSpace_le ts
    have hle' := length_skipSpace_le rest
    have hterm := length_of_termOf ‹_›
    simp_all only [List.length_cons]
    omega

/-- Nothing but the end. -/
def endOf (ts : List Token) : Except Fault (Unit × List Token) :=
  match skipSpace ts with
  | [] => .error (faultAt (eof 0) .unexpectedToken ["OPERATOR", "EOF"])
  | t :: rest =>
    if t.kind = .eof then .ok ((), rest)
    else if t.kind = .assign then .error (faultAt t .targetNotIdentifier [])
    else .error (faultAt t .unexpectedToken ["OPERATOR", "EOF"])

/-- What is assigned. -/
def assignedOf (ts : List Token) : Except Fault (Expr × List Token) :=
  match skipSpace ts with
  | [] => .error (faultAt (eof 0) .assignedValueMissing ["NUMBER", "IDENTIFIER"])
  | t :: rest =>
    if t.kind = .identifier then do
      let e ← refOf bound t
      .ok (e, rest)
    else if t.kind = .number then do
      let n ← number false t
      .ok (ofNumbers n [], rest)
    else if isMinus t then do
      let (n, rest) ← negativeOf rest
      .ok (ofNumbers n [], rest)
    else .error (faultAt t .assignedValueMissing ["NUMBER", "IDENTIFIER"])

/-- A chain from its first term on. -/
def chainFrom (ts : List Token) : Except Fault (Expr × List Token) := do
  let (e, rest) ← termOf twice bound ts
  chainOf twice bound e rest

/-- The rest of a chain and the end of the line. -/
def closeOf (left : Expr) (ts : List Token) : Except Fault (Expr × List Token) := do
  let (e, rest) ← chainOf twice bound left ts
  let (_, rest) ← endOf rest
  .ok (e, rest)

/-- A whole line. -/
def lineOf (ts : List Token) : Except Fault (Expr × List Token) :=
  match skipSpace ts with
  | [] => .error (faultAt (eof 0) .emptyLine [])
  | t :: rest =>
    if t.kind = .eof then .error (faultAt t .emptyLine [])
    else if t.kind = .identifier then
      match skipSpace rest with
      | [] => .error (faultAt (eof 0) .unexpectedToken ["OPERATOR", "EOF"])
      | follow :: after =>
        if follow.kind = .assign then do
          let (e, rest) ← assignedOf bound after
          let (_, rest) ← endOf rest
          .ok (.assign t.text e, rest)
        else do
          let e ← refOf bound t
          closeOf twice bound e (follow :: after)
    else do
      let (e, rest) ← termOf twice bound (t :: rest)
      closeOf twice bound e rest

/-! ### The next link of a chain, by its first token -/

variable {twice bound} {left : Expr} {t : Token} {ts rest : List Token}

theorem chainOf_of_nil (hskip : skipSpace ts = []) :
    chainOf twice bound left ts = .ok (left, []) := by
  rw [chainOf]
  split
  · rfl
  · next h' => rw [hskip] at h'; cases h'

theorem chainOf_of_ne (hskip : skipSpace ts = t :: rest) (h : t.kind ≠ .operator) :
    chainOf twice bound left ts = .ok (left, t :: rest) := by
  rw [chainOf]
  split
  · next h' => rw [hskip] at h'; cases h'
  · next h' =>
    rw [hskip] at h'
    cases h'
    rw [if_pos h]

theorem chainOf_of_unary (hskip : skipSpace ts = t :: rest) (h : isUnary t = true) :
    chainOf twice bound left ts = chainOf twice bound (.unary t.text left) rest := by
  obtain ⟨hkind, hsymbol⟩ := isUnary_iff.1 h
  rw [chainOf]
  split
  · next h' => rw [hskip] at h'; cases h'
  · next h' =>
    rw [hskip] at h'
    cases h'
    rw [if_neg (not_not_intro hkind), if_pos hsymbol]

theorem chainOf_of_binary (hskip : skipSpace ts = t :: rest) (h : isBinary t = true) :
    chainOf twice bound left ts = (do
      let (right, rest) ← termOf twice bound (skipSpace rest)
      chainOf twice bound (.binary t.text left right) rest) := by
  obtain ⟨hkind, hsymbol⟩ := isBinary_iff.1 h
  have hunary := not_isUnary_of_isBinary h
  rw [isUnary_eq hkind] at hunary
  rw [chainOf]
  split
  · next h' => rw [hskip] at h'; cases h'
  · next h' =>
    rw [hskip] at h'
    cases h'
    rw [if_neg (not_not_intro hkind), hunary, if_neg Bool.false_ne_true, if_pos hsymbol]
    split
    · next f h' =>
      rw [h']
      rfl
    · next right after h' =>
      rw [h']
      rfl

theorem chainOf_of_unknown (hskip : skipSpace ts = t :: rest) (h : t.kind = .operator)
    (hu : isUnary t = false) (hb : isBinary t = false) :
    chainOf twice bound left ts = .error (faultAt t (.unknownOperator t.text) []) := by
  rw [isUnary_eq h] at hu
  rw [isBinary_eq h] at hb
  rw [chainOf]
  split
  · next h' => rw [hskip] at h'; cases h'
  · next h' =>
    rw [hskip] at h'
    cases h'
    rw [if_neg (not_not_intro h), hu, hb]
    simp only [Bool.false_eq_true, if_false]

/-- What may stand behind a chain: a token that ends it, a unary or a binary operator, or an operator
that is neither. -/
theorem link_cases (t : Token) :
    t.kind ≠ .operator ∨ isUnary t = true ∨ isBinary t = true ∨
      (t.kind = .operator ∧ isUnary t = false ∧ isBinary t = false) := by
  by_cases hk : t.kind = .operator
  · cases hu : isUnary t with
    | true => exact .inr (.inl rfl)
    | false =>
      cases hb : isBinary t with
      | true => exact .inr (.inr (.inl rfl))
      | false => exact .inr (.inr (.inr ⟨hk, rfl, rfl⟩))
  · exact .inl hk

/-- A chain depends on the tokens behind a space only. -/
theorem chainOf_congr {ts' : List Token} (h : skipSpace ts = skipSpace ts') :
    chainOf twice bound left ts = chainOf twice bound left ts' := by
  rw [chainOf, chainOf.eq_def twice bound left ts', h]

end

end VectorCalc.Expr.Parse
