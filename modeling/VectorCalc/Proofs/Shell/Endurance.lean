import Mathlib
import VectorCalc.Proofs.Machine.Progress
import VectorCalc.Proofs.Token.Spelling
import VectorCalc.Shell

/-!
# How long the shell goes on

The shell answers its lines one after the other (`Answers`), and a fault that it reports does not stop
it. Almost every fault of a line is reported. The exceptions are a number of more digits than are
read of which few are significant, and a cursor that is not granted (`CanStop`). So the shell answers
all its lines, or it stops at a line that has such a number (`run_ofLines`). It does stop there:
`answer_digits` says so for a line that consists of the number alone.
-/

namespace VectorCalc

/-! ## Faults that are reported -/

theorem Expr.Parse.isReported_faultAt (token : Token) (problem : Problem) (expected : List String) :
    (faultAt token problem expected).isReported = true := by
  unfold faultAt
  split <;> rfl

theorem OperandFault.isReported {w : Width} {f : Fault} (h : OperandFault w f) :
    f.isReported = true := by
  cases h <;> rfl

/-! ## Numbers that are too long -/

open Token Expr.Parse

/-- A line of digits of which there are too many, few of them significant, is not parsed. -/
theorem Expr.parse_digits {s : Settings} {line : String} {b : Bindings}
    (hcap : (s.capacity : Int) ≤ Cursor.capacityLimit)
    (hd : ∀ d ∈ line.toList, d.isDigit = true) (hlen : Text.digitLimit < line.toList.length)
    (hsig : (line.toList.dropWhile (· = '0')).length ≤ significantLimit) :
    Expr.parse s b line = .error (.outOfDomain (.digits line.toList.length)) := by
  have hne : line ≠ "" := by
    rintro rfl
    exact absurd hlen (Nat.not_lt_zero _)
  obtain ⟨t, z, htokens, hkind, htext, -⟩ := tokenize_digits hne hd
  have hnumber : number false t = .error (.outOfDomain (.digits line.toList.length)) := by
    rw [number_eq, htext, if_neg (Nat.not_lt.2 hsig), if_pos hlen]
  rw [Expr.parse_eq_lineOf (Cursor.ofText?_of_le line s.capacity_pos hcap), htokens, lineOf,
    skipSpace_of_ne (ne_of_kind hkind (by decide))]
  dsimp only
  rw [if_neg (ne_of_kind hkind (by decide)), if_neg (ne_of_kind hkind (by decide)),
    termOf_of_number hkind, hnumber]
  rfl

namespace Shell

/-! ## Faults that are not reported -/

/-- A fault that is not reported, and what it comes from: a number of the line with too many digits,
or a capacity that no cursor can have. -/
inductive CanStop (s : Settings) (raw : String) : Fault → Prop where
  | digits {t : Token} (ht : t ∈ tokenize (chomp raw)) (h : Overlong t) :
    CanStop s raw (.outOfDomain (.digits t.text.toList.length))
  | capacity (h : Cursor.capacityLimit < s.capacity) :
    CanStop s raw (.outOfDomain .capacityTooLarge)

variable {s : Settings} {prompt raw : String} {m m' : Machine} {f : Fault} {front : List String}
  {reports : List Report} {broken : Option Fault}

/-- A line that fails is reported, or it can stop the shell. -/
theorem isReported_or_canStop (h : (m.evaluateLine s (chomp raw)).1 = .error f) :
    f.isReported = true ∨ CanStop s raw f := by
  rcases Machine.fault_of_evaluateLine h with hparse | hoperands
  · rcases Expr.blamed_of_parse hparse with ⟨hcapacity, rfl⟩ | hblamed
    · exact .inr (.capacity hcapacity)
    · cases hblamed with
      | problem ht hp expected => exact .inl (isReported_faultAt _ _ expected)
      | name => exact .inl rfl
      | digits ht hlong => exact .inr (.digits ht hlong)
      | refused ht hf =>
        rw [Cursor.refusal_of_twice hf]
        exact .inl rfl
  · exact .inl hoperands.isReported

/-! ## One line -/

/-- A blank line is answered with nothing. -/
theorem answer_of_blank (h : Text.isBlankText (chomp raw) = true) :
    answer s raw m = (.ok .silent, m) := by
  unfold answer
  dsimp only
  rw [if_pos h]

theorem answer_of_value {v : Value} (h : ¬ Text.isBlankText (chomp raw) = true)
    (hline : m.evaluateLine s (chomp raw) = (.ok v, m')) :
    answer s raw m = (.ok (.value v), m') := by
  unfold answer
  dsimp only
  rw [if_neg h, hline]

theorem answer_of_fault {category : Fault.Category} (h : ¬ Text.isBlankText (chomp raw) = true)
    (hline : m.evaluateLine s (chomp raw) = (.error f, m')) (hf : f.category? = some category) :
    answer s raw m = (.ok (.failed f), m'.note (.lineFailed (chomp raw) category)) := by
  unfold answer
  dsimp only
  rw [if_neg h, hline]
  dsimp only
  rw [hf]

theorem answer_of_stop (h : ¬ Text.isBlankText (chomp raw) = true)
    (hline : m.evaluateLine s (chomp raw) = (.error f, m')) (hf : f.category? = none) :
    answer s raw m = (.error f, m') := by
  unfold answer
  dsimp only
  rw [if_neg h, hline]
  dsimp only
  rw [hf]

/-- A line is answered, or its fault stops the shell. -/
theorem answer_cases (s : Settings) (raw : String) (m : Machine) :
    (∃ report m', answer s raw m = (.ok report, m') ∧
        ∀ f, report = .failed f → f.isReported = true) ∨
      ∃ f m', answer s raw m = (.error f, m') ∧ CanStop s raw f := by
  by_cases hblank : Text.isBlankText (chomp raw) = true
  · left
    exact ⟨.silent, m, answer_of_blank hblank, fun _ hf => nomatch hf⟩
  rcases hline : m.evaluateLine s (chomp raw) with ⟨f | v, m'⟩
  · have hfault : (m.evaluateLine s (chomp raw)).1 = .error f := by rw [hline]
    cases hcategory : f.category? with
    | none =>
      right
      have hnot : f.isReported ≠ true := by
        rw [Fault.isReported, hcategory]
        exact Bool.false_ne_true
      exact ⟨f, m', answer_of_stop hblank hline hcategory,
        (isReported_or_canStop hfault).resolve_left hnot⟩
    | some category =>
      left
      refine ⟨.failed f, _, answer_of_fault hblank hline hcategory, fun f' hf' => ?_⟩
      cases hf'
      rw [Fault.isReported, hcategory]
      rfl
  · left
    exact ⟨.value v, m', answer_of_value hblank hline, fun _ hf => nomatch hf⟩

/-! ## Many lines -/

/-- The lines are answered one after the other with the given reports. -/
inductive Answers (s : Settings) : Machine → List String → List Report → Machine → Prop where
  | nil (m : Machine) : Answers s m [] [] m
  | cons {m m' m'' : Machine} {raw : String} {report : Report} {raws : List String}
    {reports : List Report} (h : answer s raw m = (.ok report, m'))
    (hrest : Answers s m' raws reports m'') : Answers s m (raw :: raws) (report :: reports) m''

/-- What is written for the reports: nothing for a blank line, a value or a fault on a line of its own,
and the prompt behind each of them. -/
def written (prompt : String) : List Report → String
  | [] => ""
  | .silent :: reports => prompt ++ written prompt reports
  | .value v :: reports => v.text ++ "\n" ++ prompt ++ written prompt reports
  | .failed f :: reports => "error: " ++ f.message ++ "\n" ++ prompt ++ written prompt reports

/-- How many of the reports are faults. -/
def failureCount : List Report → Nat
  | [] => 0
  | .failed _ :: reports => failureCount reports + 1
  | .silent :: reports | .value _ :: reports => failureCount reports

/-- The shell writes and counts a report as one more of them. -/
theorem written_cons (prompt : String) (report : Report) (reports : List Report) :
    written prompt (report :: reports) = report.text ++ prompt ++ written prompt reports ∧
      failureCount (report :: reports) = report.failures + failureCount reports := by
  cases report with
  | silent => simp [written, failureCount, Report.text, Report.failures]
  | value v => simp [written, failureCount, Report.text, Report.failures]
  | failed f => simp [written, failureCount, Report.text, Report.failures, Nat.add_comm]

/-- Behind the lines that have been answered the shell goes on with the others. -/
theorem Answers.answerAll_append (h : Answers s m front reports m') (back : List String) :
    answerAll s prompt broken (front ++ back) m =
      ⟨written prompt reports ++ (answerAll s prompt broken back m').out,
        failureCount reports + (answerAll s prompt broken back m').failures,
        (answerAll s prompt broken back m').machine,
        (answerAll s prompt broken back m').escaped⟩ := by
  induction h with
  | nil m => simp [written, failureCount]
  | @cons m m' m'' raw report raws reports h hrest ih =>
    rw [List.cons_append, answerAll, h]
    obtain ⟨hout, hcount⟩ := written_cons prompt report reports
    dsimp only
    rw [ih, hout, hcount]
    simp [String.append_assoc, Nat.add_assoc]

/-- The lines are answered up to the end, or up to one whose fault stops the shell. -/
theorem exists_answers (s : Settings) (raws : List String) (m : Machine) :
    ∃ front back reports m', raws = front ++ back ∧ Answers s m front reports m' ∧
      (∀ f, .failed f ∈ reports → f.isReported = true) ∧
      (back = [] ∨ ∃ raw rest f m'', back = raw :: rest ∧ answer s raw m' = (.error f, m'') ∧
        CanStop s raw f) := by
  -- the machine changes with every line that is answered
  induction raws generalizing m with
  | nil => exact ⟨[], [], [], m, rfl, .nil m, (fun _ hf => nomatch hf), .inl rfl⟩
  | cons raw raws ih =>
    rcases answer_cases s raw m with ⟨report, m', hanswer, hreported⟩ | ⟨f, m', hanswer, hstop⟩
    · obtain ⟨front, back, reports, m'', rfl, hfront, hall, hback⟩ := ih m'
      refine ⟨raw :: front, back, report :: reports, m'', rfl, .cons hanswer hfront, ?_, hback⟩
      intro f hf
      rcases List.mem_cons.1 hf with hf | hf
      · exact hreported f hf.symm
      · exact hall f hf
    · exact ⟨[], raw :: raws, [], m, rfl, .nil m, (fun _ hf => nomatch hf),
        .inr ⟨raw, raws, f, m', rfl, hanswer, hstop⟩⟩

/-- The shell answers all its lines, or it stops at a line whose fault it does not report: that line
has a number of too many digits, unless no cursor is granted at all. Every failure before is reported
and counted. -/
theorem run_ofLines (s : Settings) (prompt : String) (lines : List String) (m : Machine) :
    ∃ front reports m', Answers s m front reports m' ∧
      (∀ f, .failed f ∈ reports → f.isReported = true) ∧
      ((front = lines ∧
          run s prompt (.ofLines lines) m =
            ⟨prompt ++ written prompt reports ++ (if prompt = "" then "" else "\n"),
              failureCount reports, m', none⟩) ∨
        ∃ raw back f m'', lines = front ++ raw :: back ∧ CanStop s raw f ∧
          answer s raw m' = (.error f, m'') ∧
          run s prompt (.ofLines lines) m =
            ⟨prompt ++ written prompt reports, failureCount reports, m'', some f⟩) := by
  obtain ⟨front, back, reports, m', hlines, hfront, hreported, hback⟩ := exists_answers s lines m
  have hall : answerAll s prompt none lines m = _ :=
    (congrArg (answerAll s prompt none · m) hlines).trans (hfront.answerAll_append back)
  refine ⟨front, reports, m', hfront, hreported, ?_⟩
  rcases hback with rfl | ⟨raw, rest, f, m'', rfl, hanswer, hstop⟩
  · left
    refine ⟨by rw [hlines, List.append_nil], ?_⟩
    -- only a shell that has not been stopped ends its last prompt with a line end
    rw [run, Feed.ofLines, hall]
    by_cases hprompt : prompt = "" <;> simp [answerAll, hprompt]
  · right
    refine ⟨raw, rest, f, m'', hlines, hstop, hanswer, ?_⟩
    rw [run, Feed.ofLines, hall]
    simp [answerAll, hanswer]

/-! ## A line that stops the shell -/

/-- A line of digits has no line end to be cut off. -/
theorem chomp_digits {line : String} (hd : ∀ d ∈ line.toList, d.isDigit = true) :
    chomp line = line := by
  have hkeep : ∀ c ∈ line.toList.reverse.head?, ¬ (c = '\r' || c = '\n') = true := by
    intro c hc hend
    have hdigit := hd c (List.mem_reverse.1 (List.mem_of_mem_head? hc))
    simp only [Bool.or_eq_true, decide_eq_true_eq] at hend
    rcases hend with rfl | rfl <;> cases hdigit
  have hdrop : line.toList.reverse.dropWhile (fun c => c = '\r' || c = '\n') =
      line.toList.reverse := by
    cases hrev : line.toList.reverse with
    | nil => rfl
    | cons c cs =>
      rw [hrev] at hkeep
      exact List.dropWhile_cons_of_neg (hkeep c rfl)
  rw [chomp, hdrop, List.reverse_reverse, String.ofList_toList]

theorem isBlank_of_isDigit {c : Char} (h : c.isDigit = true) : Text.isBlank c = false := by
  have hc := Char.isDigit_iff_toNat.1 h
  have hzero : '0'.toNat = 48 := rfl
  have hnine : '9'.toNat = 57 := rfl
  simp only [Text.isBlank, Text.Ranges.covers, Text.blankRanges, List.any_cons, List.any_nil,
    Bool.or_false, Bool.or_eq_false_iff, Bool.and_eq_false_iff, decide_eq_false_iff_not]
  omega

/-- A line that consists of such a number stops the shell. -/
theorem answer_digits {line : String} (hcap : (s.capacity : Int) ≤ Cursor.capacityLimit)
    (hd : ∀ d ∈ line.toList, d.isDigit = true) (hlen : Text.digitLimit < line.toList.length)
    (hsig : (line.toList.dropWhile (· = '0')).length ≤ significantLimit) (m : Machine) :
    ∃ m', answer s line m = (.error (.outOfDomain (.digits line.toList.length)), m') := by
  have hblank : ¬ Text.isBlankText line = true := by
    obtain ⟨c, cs, hcs⟩ := List.exists_cons_of_length_pos (Nat.zero_lt_of_lt hlen)
    have hc := isBlank_of_isDigit (hd c (hcs ▸ List.mem_cons_self))
    rw [Text.isBlankText, hcs, List.all_cons, hc]
    exact Bool.false_ne_true
  have hparse : Expr.parse s m.bindings line = .error (.outOfDomain (.digits line.toList.length)) :=
    Expr.parse_digits hcap hd hlen hsig
  rcases Run.parse_cases s line m with ⟨e, he, -⟩ | ⟨f, m', hf, hrun, -⟩
  · cases hparse.symm.trans he
  · cases hparse.symm.trans hf
    have hline : m.evaluateLine s line = (.error (.outOfDomain (.digits line.toList.length)), m') :=
      Reader.run_bind_of_error hrun _
    refine ⟨m', ?_⟩
    rw [answer, chomp_digits hd, if_neg hblank, hline]
    rfl

theorem answer_zeros {n : Nat} (hcap : (s.capacity : Int) ≤ Cursor.capacityLimit)
    (hn : Text.digitLimit < n) (m : Machine) :
    ∃ m', answer s (String.ofList (List.replicate n '0')) m =
      (.error (.outOfDomain (.digits n)), m') := by
  have hzeros : (String.ofList (List.replicate n '0')).toList = List.replicate n '0' :=
    String.toList_ofList
  have hd : ∀ d ∈ (String.ofList (List.replicate n '0')).toList, d.isDigit = true := by
    rw [hzeros]
    intro d hmem
    rw [List.eq_of_mem_replicate hmem]
    rfl
  have hlen : (String.ofList (List.replicate n '0')).toList.length = n := by
    rw [hzeros, List.length_replicate]
  have hsig : ((String.ofList (List.replicate n '0')).toList.dropWhile (· = '0')).length ≤
      significantLimit := by
    rw [hzeros, List.dropWhile_replicate]
    exact Nat.zero_le _
  obtain ⟨m', hm'⟩ := answer_digits hcap hd (by rw [hlen]; exact hn) hsig m
  rw [hlen] at hm'
  exact ⟨m', hm'⟩

/-- Behind 4301 zeros the shell does not answer the line `1` any more. -/
theorem run_zeros :
    ∃ m, run .default "" (.ofLines [String.ofList (List.replicate 4301 '0'), "1"]) .new =
      ⟨"", 0, m, some (.outOfDomain (.digits 4301))⟩ := by
  have hcap : ((Settings.default.capacity : Nat) : Int) ≤ Cursor.capacityLimit := by decide
  obtain ⟨m, hm⟩ := answer_zeros (n := 4301) hcap (by decide) .new
  refine ⟨m, ?_⟩
  rw [run, Feed.ofLines, answerAll, hm]
  rfl

end Shell

end VectorCalc
