import VectorCalc.Proofs.Expr.Spacing
import VectorCalc.Proofs.Expr.Stage

/-!
# One token after another

What a stage does with a token: it reports that token and no other, it takes no illegal character, and
it looks at the kind and the text only (`honest_next`, `next_of_lexeme`). What can come of a token at
all is said once (`Yields`). A run over some tokens inherits each of these from its steps. So a run that
fails has taken all tokens before the one that it reports, and other tokens with the same lexemes are
taken as well.
-/

namespace VectorCalc

/-- The place that a fault reports. -/
def Fault.span? : Fault → Option Span
  | .illegalCharacter _ span => some span
  | .malformed _ span _ _ => some span
  | _ => none

namespace Expr.Parse

open Token Grammar

namespace Stage

variable {bound : String → Bool} {stage : Stage} {t : Token} {ts : List Token}

/-! ## What one token does -/

/-- The fault is a problem at the token, or it says nothing of a place. -/
def Reports (t : Token) (f : Fault) : Prop :=
  (∃ problem expected, f = faultAt t problem expected) ∨ f.span? = none

theorem span?_faultAt (t : Token) (problem : Problem) (expected : List String) :
    (faultAt t problem expected).span? = some (spanOf t) := by
  unfold faultAt
  split <;> rfl

/-- What is known of the stage behind one token: if there is none, that token is reported; illegal
characters are never taken, and only minus signs and the end are followed by a stage that takes no
space. -/
structure Honest (t : Token) (o : Except Fault Stage) : Prop where
  reports : FailsOnly (Reports t) o
  legal : ∀ stage, o = .ok stage → t.kind ≠ .illegal
  last : ∀ stage, o = .ok stage → stage.skips = false →
    isMinus t = true ∧ stage ≠ finished ∨ t.kind = .eof ∧ stage = finished

theorem honest_error {f : Fault} (h : Reports t f) : Honest t (.error f) :=
  ⟨failsOnly_error h, nofun, nofun⟩

theorem honest_faultAt (t : Token) (problem : Problem) (expected : List String) :
    Honest t (.error (faultAt t problem expected)) := honest_error (.inl ⟨problem, expected, rfl⟩)

theorem honest_ok (hkind : t.kind ≠ .illegal)
    (hlast : stage.skips = false →
      isMinus t = true ∧ stage ≠ finished ∨ t.kind = .eof ∧ stage = finished) :
    Honest t (.ok stage) := by
  refine ⟨failsOnly_ok _, fun stage' h => ?_, fun stage' h => ?_⟩
  · cases h
    exact hkind
  · cases h
    exact hlast

/-- What can come of a token unless it ends an empty line: the token is reported, or there is a fault
that says nothing of a place, or a stage past the beginning follows. -/
inductive Yields (t : Token) : Except Fault Stage → Prop where
  | problem {problem : Problem} (h : problem ≠ .emptyLine) (expected : List String) :
    Yields t (.error (faultAt t problem expected))
  | placeless {f : Fault} (h : f.span? = none) : Yields t (.error f)
  | gap {stage : Stage} (hkind : t.kind ≠ .illegal) (hskips : stage.skips = true)
    (h : stage ≠ .start) : Yields t (.ok stage)
  | sign {stage : Stage} (hm : isMinus t = true) (hskips : stage.skips = false)
    (h : stage ≠ .finished) : Yields t (.ok stage)
  | finished (hkind : t.kind = .eof) : Yields t (.ok .finished)

theorem yields_number (hkind : t.kind = .number) (negative : Bool) (hskips : stage.skips = true)
    (h : stage ≠ .start) :
    Yields t (do
      let _ ← number negative t
      .ok stage) := by
  rw [number_eq]
  split_ifs
  · exact .problem (by decide) _
  · exact .placeless rfl
  · exact .gap (ne_of_kind hkind (by decide)) hskips h
  · exact .problem (by decide) _

theorem yields_refOf (hkind : t.kind = .identifier) (hskips : stage.skips = true)
    (h : stage ≠ .start) :
    Yields t (do
      let _ ← refOf bound t
      .ok stage) := by
  unfold refOf
  split_ifs
  · exact .gap (ne_of_kind hkind (by decide)) hskips h
  · exact .placeless rfl

theorem yields_ofTerm (t : Token) : Yields t (ofTerm bound t) := by
  unfold ofTerm
  split_ifs with hn hi hm hu
  · exact yields_number hn false rfl (by decide)
  · exact yields_refOf hi rfl (by decide)
  · exact .sign hm rfl (by decide)
  · exact .gap (ne_of_kind (isUnary_iff.1 hu).1 (by decide)) rfl (by decide)
  · exact .problem (by decide) _

theorem yields_ofDigits (t : Token) (hskips : stage.skips = true) (h : stage ≠ .start) :
    Yields t (ofDigits t stage) := by
  unfold ofDigits
  split_ifs with hn
  · exact yields_number hn true hskips h
  · exact .problem (by decide) _

theorem yields_ofEnd (t : Token) : Yields t (ofEnd t) := by
  unfold ofEnd
  split_ifs with he
  · exact .finished he
  · exact .problem (by decide) _
  · exact .problem (by decide) _

theorem yields_ofLink (t : Token) : Yields t (ofLink t) := by
  unfold ofLink
  split_ifs with hk hu hb
  · exact yields_ofEnd t
  · exact .gap (ne_of_kind (isUnary_iff.1 hu).1 (by decide)) rfl (by decide)
  · exact .gap (ne_of_kind (isBinary_iff.1 hb).1 (by decide)) rfl (by decide)
  · exact .problem (fun h : Problem.unknownOperator t.text = _ => nomatch h) _

theorem yields_ofValue (t : Token) : Yields t (ofValue bound t) := by
  unfold ofValue
  split_ifs with hi hn hm
  · exact yields_refOf hi rfl (by decide)
  · exact yields_number hn false rfl (by decide)
  · exact .sign hm rfl (by decide)
  · exact .problem (by decide) _

theorem yields_step (h : stage = .start → t.kind ≠ .eof) : Yields t (step bound t stage) := by
  unfold step
  cases stage with
  | start =>
    dsimp only
    rw [if_neg (h rfl)]
    split_ifs with hi
    · exact .gap (ne_of_kind hi (by decide)) rfl nofun
    · exact yields_ofTerm t
  | named name =>
    dsimp only
    split_ifs with ha
    · exact .gap (ne_of_kind ha (by decide)) rfl (by decide)
    · exact yields_ofLink t
    · exact .placeless rfl
  | operand => exact yields_ofTerm t
  | sign => exact yields_ofDigits t rfl (by decide)
  | literal =>
    dsimp only
    split_ifs with hn hm
    · exact yields_ofTerm t
    · exact .sign hm rfl (by decide)
    · exact yields_ofLink t
  | minus =>
    dsimp only
    split_ifs with hn hs
    · exact yields_ofDigits t rfl (by decide)
    · exact .gap (ne_of_kind hs (by decide)) rfl (by decide)
    · exact yields_ofTerm t
  | closed => exact yields_ofLink t
  | value => exact yields_ofValue t
  | valueSign => exact yields_ofDigits t rfl (by decide)
  | assigned => exact yields_ofEnd t
  | finished => exact .problem (by decide) _

theorem honest_skips (hkind : t.kind ≠ .illegal) (h : stage.skips = true) :
    Honest t (.ok stage) := honest_ok hkind fun hskips => absurd (h.symm.trans hskips) nofun

theorem Yields.honest {o : Except Fault Stage} (h : Yields t o) : Honest t o := by
  cases h with
  | problem => exact honest_faultAt t _ _
  | placeless h => exact honest_error (.inr h)
  | gap hkind hskips => exact honest_skips hkind hskips
  | sign hm _ h => exact honest_ok (ne_of_kind (kind_of_isMinus hm) (by decide)) fun _ => .inl ⟨hm, h⟩
  | finished hkind => exact honest_ok (ne_of_kind hkind (by decide)) fun _ => .inr ⟨hkind, rfl⟩

theorem honest_step (stage : Stage) (t : Token) : Honest t (step bound t stage) := by
  by_cases h : stage = .start ∧ t.kind = .eof
  · obtain ⟨rfl, heof⟩ := h
    rw [step, if_pos heof]
    exact honest_faultAt t _ _
  · exact (yields_step fun hstart heof => h ⟨hstart, heof⟩).honest

theorem honest_next (stage : Stage) (t : Token) : Honest t (stage.next bound t) := by
  unfold next
  split_ifs with h
  · exact honest_skips (ne_of_kind h.2 (by decide)) h.1
  · exact honest_step stage t

/-! ## Tokens of the same lexemes -/

theorem number_bind_of_lexeme {t' : Token} (h : lexeme t' = lexeme t) (negative : Bool)
    (stage : Stage) :
    (number negative t' >>= fun _ => Except.ok stage).toOption =
      (number negative t >>= fun _ => Except.ok stage).toOption := by
  rw [number_eq, number_eq, valueOf, valueOf, text_of_lexeme h]
  split_ifs <;> rfl

theorem refOf_bind_of_lexeme {t' : Token} (h : lexeme t' = lexeme t) (stage : Stage) :
    (refOf bound t' >>= fun _ => Except.ok stage).toOption =
      (refOf bound t >>= fun _ => Except.ok stage).toOption := by
  rw [refOf, refOf, text_of_lexeme h]

theorem ofTerm_of_lexeme {t' : Token} (h : lexeme t' = lexeme t) :
    (ofTerm bound t').toOption = (ofTerm bound t).toOption := by
  unfold ofTerm
  rw [kind_of_lexeme h, isMinus_of_lexeme h, isUnary_of_lexeme h]
  split_ifs
  · exact number_bind_of_lexeme h false _
  · exact refOf_bind_of_lexeme h _
  · rfl
  · rfl
  · rfl

theorem ofDigits_of_lexeme {t' : Token} (h : lexeme t' = lexeme t) (stage : Stage) :
    (ofDigits t' stage).toOption = (ofDigits t stage).toOption := by
  unfold ofDigits
  rw [kind_of_lexeme h]
  split_ifs
  · exact number_bind_of_lexeme h true _
  · rfl

theorem ofEnd_of_lexeme {t' : Token} (h : lexeme t' = lexeme t) :
    (ofEnd t').toOption = (ofEnd t).toOption := by
  unfold ofEnd
  rw [kind_of_lexeme h]
  split_ifs <;> rfl

theorem ofLink_of_lexeme {t' : Token} (h : lexeme t' = lexeme t) :
    (ofLink t').toOption = (ofLink t).toOption := by
  unfold ofLink
  rw [kind_of_lexeme h, isUnary_of_lexeme h, isBinary_of_lexeme h]
  split_ifs
  · exact ofEnd_of_lexeme h
  · rfl
  · rfl
  · rfl

theorem ofValue_of_lexeme {t' : Token} (h : lexeme t' = lexeme t) :
    (ofValue bound t').toOption = (ofValue bound t).toOption := by
  unfold ofValue
  rw [kind_of_lexeme h, isMinus_of_lexeme h]
  split_ifs
  · exact refOf_bind_of_lexeme h _
  · exact number_bind_of_lexeme h false _
  · rfl
  · rfl

/-- Of a token a stage takes the kind and the text. -/
theorem next_of_lexeme {t' : Token} (h : lexeme t' = lexeme t) (stage : Stage) :
    (stage.next bound t').toOption = (stage.next bound t).toOption := by
  have hkind := kind_of_lexeme h
  have htext := text_of_lexeme h
  unfold next
  rw [hkind]
  split_ifs
  · rfl
  unfold step
  cases stage with
  | start =>
    dsimp only
    rw [hkind, htext]
    split_ifs
    · rfl
    · rfl
    · exact ofTerm_of_lexeme h
  | named name =>
    dsimp only
    rw [hkind]
    split_ifs
    · rfl
    · exact ofLink_of_lexeme h
    · rfl
  | operand => exact ofTerm_of_lexeme h
  | sign => exact ofDigits_of_lexeme h _
  | literal =>
    dsimp only
    rw [hkind, isMinus_of_lexeme h]
    split_ifs
    · exact ofTerm_of_lexeme h
    · rfl
    · exact ofLink_of_lexeme h
  | minus =>
    dsimp only
    rw [hkind]
    split_ifs
    · exact ofDigits_of_lexeme h _
    · rfl
    · exact ofTerm_of_lexeme h
  | closed => exact ofLink_of_lexeme h
  | value => exact ofValue_of_lexeme h
  | valueSign => exact ofDigits_of_lexeme h _
  | assigned => exact ofEnd_of_lexeme h
  | finished => rfl

/-! ## Runs -/

/-- A run that fails does so at one token, and takes all before it. -/
theorem exists_of_take_error {f : Fault} (h : stage.take bound ts = .error f) :
    ∃ front t back stage', ts = front ++ t :: back ∧ stage.take bound front = .ok stage' ∧
      stage'.next bound t = .error f := by
  induction ts generalizing stage with
  | nil => cases h
  | cons t ts ih =>
    rw [take_cons] at h
    rcases bind_eq_error_iff.1 h with hnext | ⟨stage', hnext, hrest⟩
    · exact ⟨[], t, ts, stage, rfl, rfl, hnext⟩
    · obtain ⟨front, u, back, stage'', rfl, hfront, hu⟩ := ih hrest
      refine ⟨t :: front, u, back, stage'', rfl, ?_, hu⟩
      rw [take_cons, hnext]
      exact hfront

/-- No run takes an illegal character. -/
theorem legal_of_take {stage' : Stage} (h : stage.take bound ts = .ok stage') :
    ∀ t ∈ ts, t.kind ≠ .illegal := by
  induction ts generalizing stage with
  | nil => exact fun t ht => absurd ht List.not_mem_nil
  | cons t ts ih =>
    rw [take_cons] at h
    obtain ⟨stage'', hnext, hrest⟩ := bind_eq_ok_iff.1 h
    exact List.forall_mem_cons.2 ⟨(honest_next stage t).legal stage'' hnext, ih hrest⟩

/-- The last token of a run to a stage that takes no space. -/
theorem last_of_take {stage' : Stage} (h : stage.take bound ts = .ok stage')
    (hstage : stage.skips = true) (hskips : stage'.skips = false) :
    ∃ t ∈ ts.getLast?, isMinus t = true ∧ stage' ≠ finished ∨ t.kind = .eof ∧ stage' = finished := by
  rcases List.eq_nil_or_concat' ts with rfl | ⟨front, t, rfl⟩
  · cases h
    exact absurd (hstage.symm.trans hskips) nofun
  · rw [take_append] at h
    obtain ⟨stage'', -, h⟩ := bind_eq_ok_iff.1 h
    rw [take_cons] at h
    obtain ⟨_, hnext, h⟩ := bind_eq_ok_iff.1 h
    cases h
    exact ⟨t, by simp, (honest_next stage'' t).last stage' hnext hskips⟩

/-- Tokens of the same lexemes are taken as well. -/
theorem take_of_lexemes {ts' : List Token} {stage' : Stage} (h : ts'.map lexeme = ts.map lexeme)
    (hts : stage.take bound ts = .ok stage') : stage.take bound ts' = .ok stage' := by
  induction ts generalizing stage ts' with
  | nil =>
    obtain rfl := List.map_eq_nil_iff.1 h
    exact hts
  | cons t ts ih =>
    obtain ⟨t', us, rfl, ht, hus⟩ := List.map_eq_cons_iff.1 h
    rw [take_cons] at hts ⊢
    obtain ⟨stage'', hnext, hrest⟩ := bind_eq_ok_iff.1 hts
    have hsame : (stage.next bound t').toOption = (stage.next bound t).toOption :=
      next_of_lexeme ht stage
    rw [hnext] at hsame
    cases hnext' : stage.next bound t' with
    | error f =>
      rw [hnext'] at hsame
      cases hsame
    | ok =>
      rw [hnext'] at hsame
      cases hsame
      exact ih hus hrest

end Stage

/-! ## Lines -/

variable {s : Settings} {source : String} {b : Bindings} {f : Fault}

/-- A run over the tokens of a line ends where the parse of the line ends. -/
theorem take_tokenize (hcap : 2 ≤ s.capacity) (hle : (s.capacity : Int) ≤ Cursor.capacityLimit)
    (b : Bindings) (source : String) :
    Stage.start.take b.contains (tokenize source) =
      (Expr.parse s b source).map fun _ => .finished := by
  rw [Stage.take_line (regular_tokenize source) (ended_tokenize source),
    Expr.parse_eq_lineOf (Cursor.ofText?_of_le source s.capacity_pos hle),
    Cursor.twice_of_le hcap]
  cases lineOf Tape.twice b.contains (tokenize source) <;> rfl

/-- Only with a cursor there is a place to report. -/
theorem le_of_parse_error {span : Span} (h : Expr.parse s b source = .error f)
    (hspan : f.span? = some span) : (s.capacity : Int) ≤ Cursor.capacityLimit := by
  by_contra hlt
  have hc : Cursor.ofText? source s.capacity = .error (.outOfDomain .capacityTooLarge) := by
    simp [Cursor.ofText?, s.capacity_pos, hlt]
  rw [Expr.parse, hc] at h
  cases h
  cases hspan

/-- A fault that reports a place is a problem at the first token that is not taken. -/
theorem exists_of_parse_error {span : Span} (hcap : 2 ≤ s.capacity)
    (h : Expr.parse s b source = .error f) (hspan : f.span? = some span) :
    ∃ front t back stage problem expected, tokenize source = front ++ t :: back ∧
      Stage.start.take b.contains front = .ok stage ∧ stage.next b.contains t = .error f ∧
      f = faultAt t problem expected := by
  have htake := take_tokenize hcap (le_of_parse_error h hspan) b source
  rw [h] at htake
  obtain ⟨front, t, back, stage, hsource, hfront, ht⟩ := Stage.exists_of_take_error htake
  rcases (Stage.honest_next stage t).reports f ht with ⟨problem, expected, hf⟩ | hnone
  · exact ⟨front, t, back, stage, problem, expected, hsource, hfront, ht, hf⟩
  · rw [hnone] at hspan
    cases hspan

/-- No line with an illegal character is parsed. -/
theorem legal_of_parse {e : Expr} (hcap : 2 ≤ s.capacity) (h : Expr.parse s b source = .ok e) :
    ∀ t ∈ tokenize source, t.kind ≠ .illegal := by
  obtain ⟨c, hc⟩ := Expr.exists_cursor h
  have htake := take_tokenize hcap (Expr.le_capacityLimit hc) b source
  rw [h] at htake
  exact Stage.legal_of_take htake

end Expr.Parse

end VectorCalc
