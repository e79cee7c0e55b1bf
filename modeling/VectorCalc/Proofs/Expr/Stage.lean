import Mathlib
import VectorCalc.Proofs.Expr.Blame
import VectorCalc.Proofs.Expr.Refusal

/-!
# The stages of a line

The parser looks ahead and steps back, and builds a tree. To see where it stops, neither matters: the
same faults come from a machine of a few states that takes each token once, from the left to the right.
Its state is a `Stage`, which says what the tokens taken so far leave to come. At a minus sign behind a
number the parser looks ahead to see whether a number follows directly; the machine has a stage for
that, `minus`, and leaves it with the next token.

There is one lemma for each part of a line, with the tokens that the part leaves (`take_numbers`,
`take_term`, `take_close`), and `take_line` for the whole.
-/

namespace VectorCalc.Expr.Parse

open Token Grammar

/-! ## Stages -/

/-- What the tokens of a line that have been taken leave to come. -/
inductive Stage where
  /-- A line, no token of which has been taken. -/
  | start
  /-- What follows a name at the beginning: an assignment sign, or else the rest of a chain. -/
  | named (name : String)
  /-- A term. -/
  | operand
  /-- The digits behind the minus sign of a literal. -/
  | sign
  /-- More numbers of a vector, or the rest of a chain. -/
  | literal
  /-- What follows a minus sign behind a number: digits if it is a sign, or else a term. -/
  | minus
  /-- The rest of a chain. -/
  | closed
  /-- What is assigned. -/
  | value
  /-- The digits behind the minus sign of what is assigned. -/
  | valueSign
  /-- The end of an assignment. -/
  | assigned
  /-- Nothing. -/
  | finished
deriving DecidableEq

namespace Stage

/-- A space may be taken, and changes nothing. -/
def skips : Stage → Bool
  | .sign | .minus | .valueSign | .finished => false
  | _ => true

section

variable (bound : String → Bool) (t : Token)

/-- The stage behind the first token of a term. -/
def ofTerm : Except Fault Stage :=
  if t.kind = .number then do
    let _ ← number false t
    .ok .literal
  else if t.kind = .identifier then do
    let _ ← refOf bound t
    .ok .closed
  else if isMinus t then .ok .sign
  else if isUnary t then .ok .operand
  else .error (faultAt t .termMissing termStart)

/-- The stage behind digits to which a minus sign belongs. -/
def ofDigits (next : Stage) : Except Fault Stage :=
  if t.kind = .number then do
    let _ ← number true t
    .ok next
  else .error (faultAt t .danglingMinus ["NUMBER"])

/-- The stage behind the end. -/
def ofEnd : Except Fault Stage :=
  if t.kind = .eof then .ok .finished
  else if t.kind = .assign then .error (faultAt t .targetNotIdentifier [])
  else .error (faultAt t .unexpectedToken ["OPERATOR", "EOF"])

/-- The stage behind an operator or the end. -/
def ofLink : Except Fault Stage :=
  if t.kind ≠ .operator then ofEnd t
  else if isUnary t then .ok .closed
  else if isBinary t then .ok .operand
  else .error (faultAt t (.unknownOperator t.text) [])

/-- The stage behind the first token of what is assigned. -/
def ofValue : Except Fault Stage :=
  if t.kind = .identifier then do
    let _ ← refOf bound t
    .ok .assigned
  else if t.kind = .number then do
    let _ ← number false t
    .ok .assigned
  else if isMinus t then .ok .valueSign
  else .error (faultAt t .assignedValueMissing ["NUMBER", "IDENTIFIER"])

/-- The stage behind a token that is not skipped. -/
def step : Stage → Except Fault Stage
  | .start =>
    if t.kind = .eof then .error (faultAt t .emptyLine [])
    else if t.kind = .identifier then .ok (.named t.text)
    else ofTerm bound t
  | .named name =>
    if t.kind = .assign then .ok .value
    else if bound name then ofLink t
    else .error (.undefined (.text name))
  | .operand => ofTerm bound t
  | .sign => ofDigits t .literal
  | .literal =>
    if t.kind = .number then ofTerm bound t
    else if isMinus t then .ok .minus
    else ofLink t
  | .minus =>
    if t.kind = .number then ofDigits t .literal
    else if t.kind = .space then .ok .operand
    else ofTerm bound t
  | .closed => ofLink t
  | .value => ofValue bound t
  | .valueSign => ofDigits t .assigned
  | .assigned => ofEnd t
  | .finished => .error (faultAt t .unexpectedToken ["OPERATOR", "EOF"])

/-- The stage behind a token. -/
def next (stage : Stage) : Except Fault Stage :=
  if stage.skips ∧ t.kind = .space then .ok stage else step bound t stage

end

/-- The stage behind some tokens. -/
def take (bound : String → Bool) (stage : Stage) (ts : List Token) : Except Fault Stage :=
  ts.foldlM (fun stage t => stage.next bound t) stage

variable {bound : String → Bool} {stage : Stage} {t : Token} {ts us : List Token}

theorem take_cons (stage : Stage) (t : Token) (ts : List Token) :
    stage.take bound (t :: ts) = stage.next bound t >>= fun stage => stage.take bound ts :=
  List.foldlM_cons

theorem take_append (stage : Stage) (ts us : List Token) :
    stage.take bound (ts ++ us) = stage.take bound ts >>= fun stage => stage.take bound us :=
  List.foldlM_append

/-! ## Spaces -/

theorem next_of_space (h : stage.skips = true) (ht : t.kind = .space) :
    stage.next bound t = .ok stage := if_pos ⟨h, ht⟩

theorem next_of_ne (ht : t.kind ≠ .space) (stage : Stage) : stage.next bound t = step bound t stage :=
  if_neg fun h => ht h.2

theorem take_skipSpace (h : stage.skips = true) (ts : List Token) :
    stage.take bound ts = stage.take bound (skipSpace ts) := by
  cases ts with
  | nil => rfl
  | cons t ts =>
    by_cases ht : t.kind = .space
    · rw [skipSpace_of_space ht, take_cons, next_of_space h ht]
      rfl
    · rw [skipSpace_of_ne ht]

/-- Spaces of a regular list are skipped as a whole. -/
theorem ne_space_of_skipSpace (hreg : Regular ts) (h : skipSpace ts = t :: us) :
    t.kind ≠ .space := by
  intro ht
  have hskip := skipSpace_skipSpace hreg
  rw [h, skipSpace_of_space ht] at hskip
  exact List.cons_ne_self t us hskip.symm

/-- The first token behind a gap. -/
theorem exists_of_skipSpace (hreg : Regular ts) (he : Ended ts) :
    ∃ t us, skipSpace ts = t :: us ∧ t.kind ≠ .space ∧ Regular (t :: us) ∧ Ended (t :: us) := by
  obtain ⟨t, us, hskip⟩ := List.exists_cons_of_ne_nil he.skipSpace.ne_nil
  have hword := hreg.suffix (skipSpace_suffix ts)
  have hended := he.skipSpace
  rw [hskip] at hword hended
  exact ⟨t, us, hskip, ne_space_of_skipSpace hreg hskip, hword, hended⟩

/-- The first token behind a gap is taken by a step. -/
theorem take_of_skipSpace (h : stage.skips = true) (hskip : skipSpace ts = t :: us)
    (hs : t.kind ≠ .space) :
    stage.take bound ts = step bound t stage >>= fun stage => stage.take bound us := by
  rw [take_skipSpace h, hskip, take_cons, next_of_ne hs]

/-! ## Terms -/

/-- No unary operator is a minus sign. -/
theorem not_isMinus_of_isUnary (h : isUnary t = true) : isMinus t = false := by
  rw [Bool.eq_false_iff]
  intro hm
  have hsymbol := (isUnary_iff.1 h).2
  rw [text_of_isMinus hm] at hsymbol
  cases hsymbol

/-- The digits behind a minus sign. -/
theorem ofDigits_bind (stage : Stage) (t : Token) (ts : List Token) :
    (ofDigits t stage >>= fun stage => stage.take bound ts) =
      negativeOf (t :: ts) >>= fun p => stage.take bound p.2 := by
  by_cases ht : t.kind = .number
  · rw [ofDigits, if_pos ht, negativeOf_of_number ht]
    cases number true t <;> rfl
  · rw [ofDigits, if_neg ht, negativeOf_of_ne ht]
    rfl

/-- Behind a minus sign with no number behind it there is an operand. -/
theorem take_minus (ht : t.kind ≠ .number) (ts : List Token) :
    minus.take bound (t :: ts) = operand.take bound (t :: ts) := by
  rw [take_cons, take_cons]
  congr 1
  by_cases hs : t.kind = .space
  · simp [next, step, skips, hs]
  · simp [next, step, hs, ht]

theorem next_minus {m : Token} (hm : isMinus m = true) : literal.next bound m = .ok .minus := by
  have hkind := kind_of_isMinus hm
  simp [next, step, hkind, hm]

theorem ended_of_signed {after : List Token} {negative : Bool} {token : Token}
    (h : Signed ts negative token after) (he : Ended ts) : Ended after := by
  cases h with
  | plain hkind => exact he.tail (ne_of_kind hkind (by decide))
  | negated hm hkind =>
    have hend := he.tail (ne_of_kind hm.1 (by decide))
    exact hend.tail (ne_of_kind hkind (by decide))

/-- A further number of a vector. -/
theorem take_signed {after : List Token} {negative : Bool} {token : Token}
    (h : Signed ts negative token after) :
    literal.take bound ts = number negative token >>= fun _ => literal.take bound after := by
  cases h with
  | plain hkind =>
    have hnext : literal.next bound token = ofTerm bound token := by simp [next, step, hkind]
    rw [take_cons, hnext, ofTerm, if_pos hkind]
    cases number false token <;> rfl
  | negated hm hkind =>
    have hnext : minus.next bound token = ofDigits token literal := by
      simp [next, step, skips, hkind]
    rw [take_cons, next_minus (isMinus_iff.2 hm)]
    change minus.take bound (token :: after) = _
    rw [take_cons, hnext, ofDigits, if_pos hkind]
    cases number true token <;> rfl

/-- Where no further number stands the rest of a chain follows. -/
theorem take_unsigned (hnone : signed? (t :: ts) = none) (hs : t.kind ≠ .space)
    (he : Ended (t :: ts)) : literal.take bound (t :: ts) = closed.take bound (t :: ts) := by
  have hn : t.kind ≠ .number := by
    intro hn
    simp [signed?, hn] at hnone
  by_cases hm : isMinus t = true
  · -- the minus sign is no sign, so an operand follows
    have hkind := kind_of_isMinus hm
    obtain ⟨a, us, rfl⟩ :=
      List.exists_cons_of_ne_nil (he.tail (ne_of_kind hkind (by decide))).ne_nil
    have ha : a.kind ≠ .number := by
      intro ha
      simp [signed?, hkind, hm, ha] at hnone
    have hlink : closed.next bound t = .ok operand := by
      have hb : isBinary t = true := isBinary_iff.2 ⟨hkind, by rw [text_of_isMinus hm]; rfl⟩
      simp [next, step, ofLink, hkind, hb, not_isUnary_of_isBinary hb]
    rw [take_cons, next_minus hm, take_cons closed, hlink]
    exact take_minus ha us
  · rw [take_cons, take_cons]
    congr 1
    simp [next, step, hs, hn, hm]

/-- Behind a number there are the other numbers of its vector, and then the rest of a chain. -/
theorem take_numbers (hreg : Regular ts) (he : Ended ts) :
    literal.take bound ts =
      numbersOf Tape.twice ts >>= fun p => closed.take bound p.2 := by
  induction ts using numbersOf.induct with
  | case1 ts negative token after hsigned ih =>
    have hsigned' := signed?_iff.1 hsigned
    have hword := hreg.suffix (skipSpace_suffix ts)
    have hafter := ended_of_signed hsigned' he.skipSpace
    rw [take_skipSpace rfl, take_signed hsigned', numbersOf_of_signed hsigned,
      ih (hword.suffix hsigned'.suffix) hafter]
    cases number negative token with
    | error f => rfl
    | ok n => cases numbersOf Tape.twice after <;> rfl
  | case2 ts hnone =>
    rw [take_skipSpace rfl, numbersOf_of_none hnone, stepBack_tape]
    change _ = closed.take bound (skipSpace ts)
    obtain ⟨t, us, hskip, hs, -, hended⟩ := exists_of_skipSpace hreg he
    rw [hskip] at hnone ⊢
    exact take_unsigned hnone hs hended

/-- A number or a vector, and then the rest of a chain. -/
theorem ofTerm_bind_literal (ht : OpensLiteral t) (hreg : Regular (t :: ts))
    (he : Ended (t :: ts)) :
    (ofTerm bound t >>= fun stage => stage.take bound ts) =
      termOf Tape.twice bound (t :: ts) >>= fun p => closed.take bound p.2 := by
  have haccounts : Accounts Tape.twice bound (t :: ts) (signedOf (t :: ts)) :=
    accounts_signedOf he ht
  have hfirst : (ofTerm bound t >>= fun stage => stage.take bound ts) =
      signedOf (t :: ts) >>= fun p => literal.take bound p.2 := by
    rcases ht with ht | ht
    · rw [ofTerm, if_pos ht, signedOf_of_number ht]
      cases number false t <;> rfl
    · have hkind := kind_of_isMinus ht
      have hsign : ofTerm bound t = .ok sign := by simp [ofTerm, hkind, ht]
      obtain ⟨a, us, rfl⟩ :=
        List.exists_cons_of_ne_nil (he.tail (ne_of_kind hkind (by decide))).ne_nil
      rw [hsign, signedOf_of_minus ht, ← ofDigits_bind]
      exact take_cons sign a us
  rw [hfirst, termOf_of_literal ht]
  cases hsigned : signedOf (t :: ts) with
  | error f => rfl
  | ok p =>
    obtain ⟨n, rest⟩ := p
    obtain ⟨hsub, hrest⟩ := haccounts.left n rest hsigned
    refine (take_numbers (hreg.suffix hsub) hrest).trans ?_
    dsimp only [Bind.bind, Except.bind]
    cases numbersOf Tape.twice rest <;> rfl

/-- A term, and then the rest of a chain. -/
theorem ofTerm_bind (hreg : Regular (t :: ts)) (he : Ended (t :: ts)) :
    (ofTerm bound t >>= fun stage => stage.take bound ts) =
      termOf Tape.twice bound (t :: ts) >>= fun p => closed.take bound p.2 := by
  -- behind a unary operator there is a shorter term
  induction hlen : ts.length using Nat.strong_induction_on generalizing t ts with
  | _ len ih =>
    subst hlen
    rcases term_cases t with ht | ht | ht | ⟨hn, hi, hm, hu⟩
    · exact ofTerm_bind_literal ht hreg he
    · have hn : t.kind ≠ .number := ne_of_kind ht (by decide)
      rw [termOf_of_identifier ht, ofTerm, if_neg hn, if_pos ht]
      cases refOf bound t <;> rfl
    · have hkind := (isUnary_iff.1 ht).1
      have hoperand : ofTerm bound t = .ok operand := by
        simp [ofTerm, hkind, not_isMinus_of_isUnary ht, ht]
      have hle := length_skipSpace_le ts
      obtain ⟨a, us, hskip, hs, hreg', he'⟩ :=
        exists_of_skipSpace hreg.tail (he.tail (ne_of_kind hkind (by decide)))
      rw [hskip, List.length_cons] at hle
      rw [termOf_of_unary ht, hoperand]
      change operand.take bound ts = _
      rw [take_of_skipSpace rfl hskip hs, step, hskip, ih us.length (by omega) hreg' he' rfl]
      cases termOf Tape.twice bound (a :: us) <;> rfl
    · rw [termOf_of_other hn hi hm hu]
      simp only [ofTerm, hn, hi, hm, hu, if_false, Bool.false_eq_true]
      rfl

/-- An operand behind a gap. -/
theorem take_term (hreg : Regular ts) (he : Ended ts) :
    operand.take bound ts =
      termOf Tape.twice bound (skipSpace ts) >>= fun p => closed.take bound p.2 := by
  obtain ⟨t, us, hskip, hs, hreg', he'⟩ := exists_of_skipSpace hreg he
  rw [take_of_skipSpace rfl hskip hs, step, hskip, ofTerm_bind hreg' he']

/-! ## Ends -/

/-- The end of a line. -/
theorem ofEnd_bind (hreg : Regular (t :: ts)) (hs : t.kind ≠ .space) :
    (ofEnd t >>= fun stage => stage.take bound ts) =
      (endOf (t :: ts)).map fun _ => finished := by
  rw [endOf, skipSpace_of_ne hs]
  unfold ofEnd
  by_cases ht : t.kind = .eof
  · rw [hreg.eof_last t ts (List.suffix_refl _) ht]
    simp only [ht, if_true]
    rfl
  · simp only [ht, if_false]
    split <;> rfl

theorem take_end (hreg : Regular ts) (he : Ended ts) :
    assigned.take bound ts = (endOf ts).map fun _ => finished := by
  obtain ⟨t, us, hskip, hs, hreg', -⟩ := exists_of_skipSpace hreg he
  have hend : endOf ts = endOf (t :: us) := by rw [endOf, hskip, endOf, skipSpace_of_ne hs]
  rw [take_of_skipSpace rfl hskip hs, step, ofEnd_bind hreg' hs, hend]

section

variable {twice : Token → Except Fault Unit} {left : Expr}

theorem closeOf_of_ne (hskip : skipSpace ts = t :: us) (h : t.kind ≠ .operator) :
    closeOf twice bound left ts = endOf (t :: us) >>= fun p => .ok (left, p.2) := by
  rw [closeOf, chainOf_of_ne hskip h]
  rfl

theorem closeOf_of_unary (hskip : skipSpace ts = t :: us) (h : isUnary t = true) :
    closeOf twice bound left ts = closeOf twice bound (.unary t.text left) us := by
  rw [closeOf, chainOf_of_unary hskip h]
  rfl

theorem closeOf_of_binary (hskip : skipSpace ts = t :: us) (h : isBinary t = true) :
    closeOf twice bound left ts = termOf twice bound (skipSpace us) >>= fun p =>
      closeOf twice bound (.binary t.text left p.1) p.2 := by
  rw [closeOf, chainOf_of_binary hskip h, bind_assoc]
  rfl

theorem closeOf_of_unknown (hskip : skipSpace ts = t :: us) (h : t.kind = .operator)
    (hu : isUnary t = false) (hb : isBinary t = false) :
    closeOf twice bound left ts = .error (faultAt t (.unknownOperator t.text) []) := by
  rw [closeOf, chainOf_of_unknown hskip h hu hb]
  rfl

end

/-- The rest of a chain and the end of the line. -/
theorem take_close (left : Expr) (hreg : Regular ts) (he : Ended ts) :
    closed.take bound ts = (closeOf Tape.twice bound left ts).map fun _ => finished := by
  -- each operator leaves fewer tokens, the end still among them
  induction hlen : ts.length using Nat.strong_induction_on generalizing left ts with
  | _ len ih =>
    subst hlen
    have hle := length_skipSpace_le ts
    obtain ⟨t, after, hskip, hs, hreg', he'⟩ := exists_of_skipSpace hreg he
    rw [hskip, List.length_cons] at hle
    rw [take_of_skipSpace rfl hskip hs, step]
    rcases link_cases t with hk | ht | ht | ⟨hk, hu, hb⟩
    · rw [ofLink, if_pos hk, ofEnd_bind hreg' hs, closeOf_of_ne hskip hk]
      cases endOf (t :: after) <;> rfl
    · have hkind := (isUnary_iff.1 ht).1
      have hlink : ofLink t = .ok closed := by simp [ofLink, hkind, ht]
      rw [hlink, closeOf_of_unary hskip ht]
      exact ih after.length (by omega) _ hreg'.tail
        (he'.tail (ne_of_kind hkind (by decide))) rfl
    · have hkind := (isBinary_iff.1 ht).1
      have hafter := he'.tail (ne_of_kind hkind (by decide))
      have hlink : ofLink t = .ok operand := by
        simp [ofLink, hkind, ht, not_isUnary_of_isBinary ht]
      rw [hlink, closeOf_of_binary hskip ht]
      change operand.take bound after = _
      rw [take_term hreg'.tail hafter]
      have haccounts : Accounts Tape.twice bound (skipSpace after)
          (termOf Tape.twice bound (skipSpace after)) := accounts_termOf hafter.skipSpace
      cases hterm : termOf Tape.twice bound (skipSpace after) with
      | error f => rfl
      | ok p =>
        obtain ⟨right, rest⟩ := p
        obtain ⟨hsub, hrest⟩ := haccounts.left right rest hterm
        have hlen := length_of_termOf hterm
        have hle' := length_skipSpace_le after
        exact ih rest.length (by omega) _
          (hreg'.tail.suffix (hsub.trans (skipSpace_suffix after))) hrest rfl
    · have hlink : ofLink t = .error (faultAt t (.unknownOperator t.text) []) := by
        simp [ofLink, hk, hu, hb]
      rw [hlink, closeOf_of_unknown hskip hk hu hb]
      rfl

/-! ## Lines -/

theorem take_value (hreg : Regular ts) (he : Ended ts) :
    value.take bound ts = assignedOf bound ts >>= fun p => assigned.take bound p.2 := by
  obtain ⟨t, us, hskip, hs, -, he'⟩ := exists_of_skipSpace hreg he
  rw [take_of_skipSpace rfl hskip hs, step, assignedOf, hskip]
  dsimp only
  unfold ofValue
  by_cases hi : t.kind = .identifier
  · rw [if_pos hi, if_pos hi]
    cases refOf bound t <;> rfl
  rw [if_neg hi, if_neg hi]
  by_cases hn : t.kind = .number
  · rw [if_pos hn, if_pos hn]
    cases number false t <;> rfl
  rw [if_neg hn, if_neg hn]
  by_cases hm : isMinus t = true
  · rw [if_pos hm, if_pos hm]
    have hus := he'.tail (ne_of_kind (kind_of_isMinus hm) (by decide))
    obtain ⟨a, vs, rfl⟩ := List.exists_cons_of_ne_nil hus.ne_nil
    change valueSign.take bound (a :: vs) = _
    rw [take_cons]
    change (ofDigits a assigned >>= fun stage => stage.take bound vs) = _
    rw [ofDigits_bind]
    cases negativeOf (a :: vs) <;> rfl
  · rw [if_neg hm, if_neg hm]
    rfl

/-- What is assigned, and the end of the line. -/
theorem take_assignment (hreg : Regular ts) (he : Ended ts) :
    value.take bound ts =
      (assignedOf bound ts >>= fun p => endOf p.2).map fun _ => finished := by
  have haccounts : Accounts Tape.twice bound ts (assignedOf bound ts) := accounts_assignedOf he
  rw [take_value hreg he]
  cases hassigned : assignedOf bound ts with
  | error f => rfl
  | ok p =>
    obtain ⟨e, rest⟩ := p
    obtain ⟨hsub, hrest⟩ := haccounts.left e rest hassigned
    exact take_end (hreg.suffix hsub) hrest

/-- Behind a name at the beginning there is what is assigned to it, or the rest of a chain. -/
theorem take_named (name : String) (hs : t.kind ≠ .space) (ts : List Token) :
    (named name).take bound (t :: ts) =
      if t.kind = .assign then value.take bound ts
      else if bound name then closed.take bound (t :: ts)
      else .error (.undefined (.text name)) := by
  rw [take_cons, next_of_ne hs, step]
  split_ifs
  · rfl
  · rw [take_cons, next_of_ne hs, step]
  · rfl

/-- The stages of a line end where its parse ends, and with the same fault. -/
theorem take_line (hreg : Regular ts) (he : Ended ts) :
    start.take bound ts = (lineOf Tape.twice bound ts).map fun _ => finished := by
  obtain ⟨t, after, hskip, hs, hreg', he'⟩ := exists_of_skipSpace hreg he
  rw [take_of_skipSpace rfl hskip hs, step, lineOf, hskip]
  dsimp only
  by_cases heof : t.kind = .eof
  · rw [if_pos heof, if_pos heof]
    rfl
  rw [if_neg heof, if_neg heof]
  by_cases hi : t.kind = .identifier
  · rw [if_pos hi, if_pos hi]
    obtain ⟨follow, rest, hskip', hs', hreg'', he''⟩ :=
      exists_of_skipSpace hreg'.tail (he'.tail heof)
    change (named t.text).take bound after = _
    rw [take_skipSpace rfl, hskip', take_named t.text hs']
    dsimp only
    by_cases ha : follow.kind = .assign
    · rw [if_pos ha, if_pos ha,
        take_assignment hreg''.tail (he''.tail (ne_of_kind ha (by decide)))]
      cases assignedOf bound rest with
      | error f => rfl
      | ok p =>
        dsimp only [Bind.bind, Except.bind]
        cases endOf p.2 <;> rfl
    · rw [if_neg ha, if_neg ha, refOf, take_close (.ref t.text) hreg'' he'']
      split_ifs <;> rfl
  · rw [if_neg hi, if_neg hi, ofTerm_bind hreg' he']
    have haccounts : Accounts Tape.twice bound (t :: after)
        (termOf Tape.twice bound (t :: after)) := accounts_termOf he'
    cases hterm : termOf Tape.twice bound (t :: after) with
    | error f => rfl
    | ok p =>
      obtain ⟨e, rest⟩ := p
      obtain ⟨hsub, hrest⟩ := haccounts.left e rest hterm
      exact take_close e (hreg'.suffix hsub) hrest

end Stage

end VectorCalc.Expr.Parse
