import VectorCalc.Proofs.Expr.Run

/-!
# The beginning of a line

The spaces of a line in front are one token, and the token behind it begins with the first character
that is no space (`skipSpace_tokenize`). There it turns out whether the line is empty. A line of
spaces is reported as empty, at its end (`parse_of_spaces`), and no other line is: once the parser is
past the beginning, it does not come back, and its faults are others (`Stage.Begun.take`). If no token
begins with the first character that is no space, that character is reported (`parse_of_not_opens`).
-/

namespace VectorCalc

/-- The fault reports an empty line. -/
def Fault.isEmptyLine : Fault → Bool
  | .malformed .emptyLine _ _ _ => true
  | _ => false

namespace Expr.Parse

open Token Grammar

/-! ## The first token behind the spaces -/

/-- Behind the spaces in front a line is cut from its first other character on. -/
theorem skipSpace_tokenize (source : String) :
    skipSpace (tokenize source) =
      Scanner.tokens
        ⟨source.toList.dropWhile isSpace, (source.toList.takeWhile isSpace).length⟩ := by
  rw [tokenize, Scanner.ofText]
  cases source.toList with
  | nil =>
    show skipSpace (Scanner.tokens ⟨[], 0⟩) = Scanner.tokens ⟨[], 0⟩
    rw [Scanner.tokens_of_nil rfl]
    rfl
  | cons c cs =>
    have hne : (Scanner.mk (c :: cs) 0).rest ≠ [] := List.cons_ne_nil c cs
    rw [Scanner.tokens_of_ne_nil hne, Scanner.scan_of_cons rfl]
    by_cases hc : isSpace c = true
    · have hkind := (first_kind_eq_space_iff c cs).2 hc
      rw [skipSpace_of_space hkind, List.dropWhile_cons_of_pos hc, List.takeWhile_cons_of_pos hc]
      simp [first, hc]
    · have hkind := mt (first_kind_eq_space_iff c cs).1 hc
      rw [skipSpace_of_ne hkind, List.dropWhile_cons_of_neg hc, List.takeWhile_cons_of_neg hc,
        List.length_nil, Scanner.tokens_of_ne_nil hne, Scanner.scan_of_cons rfl]

/-- The token behind the spaces of a line is its end, or begins with the first other character. -/
theorem exists_of_skipSpace_tokenize {source : String} {c : Char} {cs : List Char}
    (h : source.toList.dropWhile isSpace = c :: cs) :
    ∃ ts, skipSpace (tokenize source) =
      ⟨(first c cs).1, String.ofList (first c cs).2.1,
        (source.toList.takeWhile isSpace).length,
        (source.toList.takeWhile isSpace).length + (first c cs).2.1.length⟩ :: ts := by
  rw [skipSpace_tokenize, h, Scanner.tokens_of_ne_nil (List.cons_ne_nil c cs),
    Scanner.scan_of_cons rfl]
  exact ⟨_, rfl⟩

theorem skipSpace_tokenize_of_spaces {source : String}
    (h : ∀ c ∈ source.toList, isSpace c = true) :
    skipSpace (tokenize source) = [eof source.length] := by
  rw [skipSpace_tokenize, List.dropWhile_eq_nil_iff.2 h, List.takeWhile_eq_self_iff.2 h,
    Scanner.tokens_of_nil rfl, String.length_toList]

/-! ## Past the beginning -/

namespace Stage

variable {bound : String → Bool} {stage : Stage} {t : Token}

/-- The beginning is past: its stage is left, and its fault is not reported any more. -/
structure Begun (o : Except Fault Stage) : Prop where
  left : ∀ stage, o = .ok stage → stage ≠ .start
  filled : FailsOnly (fun f => f.isEmptyLine = false) o

theorem begun_ok (h : stage ≠ .start) : Begun (.ok stage) := by
  refine ⟨fun stage' h' => ?_, failsOnly_ok _⟩
  cases h'
  exact h

theorem begun_error {f : Fault} (h : f.isEmptyLine = false) : Begun (.error f) :=
  ⟨nofun, failsOnly_error h⟩

/-- The fault of an empty line names its place. -/
theorem isEmptyLine_of_placeless {f : Fault} (h : f.span? = none) : f.isEmptyLine = false := by
  cases f with
  | malformed => cases h
  | _ => rfl

theorem isEmptyLine_faultAt {problem : Problem} (h : problem ≠ .emptyLine) (t : Token)
    (expected : List String) : (faultAt t problem expected).isEmptyLine = false := by
  unfold faultAt
  split_ifs
  · rfl
  · cases problem <;> first | rfl | exact absurd rfl h

theorem Yields.begun {o : Except Fault Stage} (h : Yields t o) : Begun o := by
  cases h with
  | problem h => exact begun_error (isEmptyLine_faultAt h t _)
  | placeless h => exact begun_error (isEmptyLine_of_placeless h)
  | gap _ _ h => exact begun_ok h
  | sign _ hskips => exact begun_ok (by rintro rfl; cases hskips)
  | finished => exact begun_ok (by decide)

/-- Only the end of a line in its beginning makes it an empty one. -/
theorem begun_step (h : stage = .start → t.kind ≠ .eof) : Begun (step bound t stage) :=
  (yields_step h).begun

theorem begun_next (h : stage ≠ .start) (t : Token) : Begun (stage.next bound t) := by
  unfold next
  split_ifs
  · exact begun_ok h
  · exact begun_step fun hstart => absurd hstart h

/-- A run that is past the beginning stays so. -/
theorem Begun.take {o : Except Fault Stage} (h : Begun o) (ts : List Token) :
    Begun (o >>= fun stage => stage.take bound ts) := by
  induction ts generalizing o with
  | nil => cases o <;> exact h
  | cons t ts ih =>
    cases o with
    | error f => exact h
    | ok stage =>
      show Begun (stage.take bound (t :: ts))
      rw [take_cons]
      exact ih (begun_next (h.left stage rfl) t)

end Stage

/-! ## Lines -/

variable {s : Settings} {source : String}

/-- A line whose first token behind a gap is not its end is not reported as empty. -/
theorem filled_lineOf {twice : Token → Except Fault Unit} {bound : String → Bool} {t : Token}
    {ts us : List Token} (hreg : Regular ts) (he : Ended ts) (hskip : skipSpace ts = t :: us)
    (ht : t.kind ≠ .eof) (htwice : ∀ a f, twice a = .error f → f.isEmptyLine = false) :
    FailsOnly (fun f => f.isEmptyLine = false) (lineOf twice bound ts) := by
  have htake : Stage.start.take bound ts = _ := Stage.take_line hreg he
  have hbegun : Stage.Begun (Stage.start.take bound ts) := by
    rw [Stage.take_of_skipSpace rfl hskip (Stage.ne_space_of_skipSpace hreg hskip)]
    exact (Stage.begun_step fun _ => ht).take us
  intro f hf
  have hline : SameUnless twice (LoneMinus bound ts) (lineOf twice bound ts) _ :=
    lineOf_sameUnless hreg
  rcases hline with hsame | ⟨a, f', -, ha, hline⟩
  · rw [hsame] at hf
    rw [hf] at htake
    exact hbegun.filled f htake
  · rw [hline] at hf
    cases hf
    exact htwice a f ha

/-- An illegal character behind a gap is reported. -/
theorem lineOf_of_illegal {twice : Token → Except Fault Unit} {bound : String → Bool} {t : Token}
    {ts us : List Token} (hskip : skipSpace ts = t :: us) (h : t.kind = .illegal) :
    lineOf twice bound ts = .error (.illegalCharacter t.text (spanOf t)) := by
  have hm : isMinus t = false := by simp [isMinus, h]
  have hu : isUnary t = false := by simp [isUnary, h]
  rw [lineOf, hskip]
  dsimp only
  rw [if_neg (ne_of_kind h (by decide)), if_neg (ne_of_kind h (by decide)),
    termOf_of_other (ne_of_kind h (by decide)) (ne_of_kind h (by decide)) hm hu, faultAt, if_pos h]
  rfl

/-- A line of spaces is reported as empty, at its end. -/
theorem parse_of_spaces (hcap : (s.capacity : Int) ≤ Cursor.capacityLimit) (b : Bindings)
    (h : ∀ c ∈ source.toList, isSpace c = true) :
    Expr.parse s b source =
      .error (.malformed .emptyLine ⟨source.length, source.length⟩ [] (some "EOF")) := by
  rw [parse_eq_lineOf (Cursor.ofText?_of_le source s.capacity_pos hcap), lineOf,
    skipSpace_tokenize_of_spaces h]
  rfl

/-- A line with a character that is no space is not reported as empty. -/
theorem filled_parse {c : Char} (hcap : (s.capacity : Int) ≤ Cursor.capacityLimit) (b : Bindings)
    (hc : c ∈ source.toList) (h : isSpace c = false) :
    FailsOnly (fun f => f.isEmptyLine = false) (Expr.parse s b source) := by
  obtain ⟨d, ds, hdrop⟩ : ∃ d ds, source.toList.dropWhile isSpace = d :: ds := by
    refine List.exists_cons_of_ne_nil fun hnil => ?_
    rw [List.dropWhile_eq_nil_iff.1 hnil c hc] at h
    cases h
  obtain ⟨ts, hskip⟩ := exists_of_skipSpace_tokenize hdrop
  have hline : FailsOnly (fun f => f.isEmptyLine = false)
      (lineOf (Cursor.twice s.capacity) b.contains (tokenize source)) := by
    refine filled_lineOf (regular_tokenize source) (ended_tokenize source) hskip
      (first_kind_ne_eof d ds) fun a f ha => ?_
    rw [Cursor.refusal_of_twice ha]
    rfl
  rw [parse_eq_lineOf (Cursor.ofText?_of_le source s.capacity_pos hcap)]
  intro f hf
  cases ho : lineOf (Cursor.twice s.capacity) b.contains (tokenize source) with
  | error f' =>
    rw [ho] at hf
    cases hf
    exact hline f ho
  | ok p =>
    rw [ho] at hf
    cases hf

/-- A line is reported as empty if it has only spaces, and only then. -/
theorem isEmptyLine_of_parse_iff (hcap : (s.capacity : Int) ≤ Cursor.capacityLimit) (b : Bindings) :
    (∃ f, Expr.parse s b source = .error f ∧ f.isEmptyLine = true) ↔
      ∀ c ∈ source.toList, isSpace c = true := by
  constructor
  · rintro ⟨f, hf, hempty⟩ c hc
    by_contra h
    have hfilled : f.isEmptyLine = false := filled_parse hcap b hc (Bool.eq_false_iff.2 h) f hf
    rw [hempty] at hfilled
    cases hfilled
  · exact fun h => ⟨_, parse_of_spaces hcap b h, rfl⟩

/-- The first character that is no space is reported if no token begins with it. -/
theorem parse_of_not_opens {c : Char} {front back : List Char}
    (hcap : (s.capacity : Int) ≤ Cursor.capacityLimit) (b : Bindings)
    (hsource : source.toList = front ++ c :: back) (hfront : ∀ d ∈ front, isSpace d = true)
    (hc : ¬ Opens c) :
    Expr.parse s b source =
      .error (.illegalCharacter (String.singleton c) ⟨front.length, front.length + 1⟩) := by
  have hspace : isSpace c = false := Bool.eq_false_iff.2 fun h => hc (.inl h)
  have hstop : ∀ d, (c :: back).head? = some d → isSpace d = false := by
    rintro d ⟨⟩
    exact hspace
  obtain ⟨htake, hdrop⟩ := span_append hfront hstop
  rw [← hsource] at htake hdrop
  obtain ⟨ts, hskip⟩ := exists_of_skipSpace_tokenize hdrop
  have hfirst : first c back = (.illegal, [c], back) :=
    first_of_spells (.illegal hc) fun d _ => not_false
  rw [htake, hfirst] at hskip
  rw [parse_eq_lineOf (Cursor.ofText?_of_le source s.capacity_pos hcap),
    lineOf_of_illegal hskip rfl]
  rfl

end Expr.Parse

end VectorCalc
