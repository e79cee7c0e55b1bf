import VectorCalc.Proofs.Expr.Beginning
import VectorCalc.Proofs.Shell.Endurance

/-!
# Lines that are skipped

The shell skips a line if all its characters are blank. The parser reports a line as empty if all its
characters are spaces, and these are fewer: of the blank characters only three are spaces. So each
line that would be reported as empty is skipped, and the shell never reports one. But a line is
skipped as well if another blank character is in it, which the parser would report as illegal
(`answer_of_formFeed`). `skipped_iff_empty` says how far the two agree.
-/

namespace VectorCalc

open Token

/-! ## Blank characters and spaces -/

namespace Text

/-- Spaces are blank. -/
theorem isBlank_of_isSpace {c : Char} (h : isSpace c = true) : isBlank c = true := by
  rcases isSpace_iff.1 h with rfl | rfl | rfl <;> decide

/-- No letter is blank. -/
theorem isBlank_of_isAlpha {c : Char} (h : c.isAlpha = true) : isBlank c = false := by
  have hc : 65 ≤ c.toNat ∧ c.toNat ≤ 90 ∨ 97 ≤ c.toNat ∧ c.toNat ≤ 122 := by
    simpa [Char.isAlpha, Char.isUpper, Char.isLower, UInt32.le_iff_toNat_le] using h
  simp only [isBlank, Ranges.covers, blankRanges, List.any_cons, List.any_nil, Bool.or_false,
    Bool.or_eq_false_iff, Bool.and_eq_false_iff, decide_eq_false_iff_not]
  omega

/-- No token begins with a blank character that is no space. -/
theorem not_opens_of_isBlank {c : Char} (h : isBlank c = true) (hs : isSpace c = false) :
    ¬ Opens c := by
  rintro (hc | hc | hc | hc)
  · rw [hs] at hc
    cases hc
  · rw [isBlank_of_isAlpha hc] at h
    cases h
  · rw [Shell.isBlank_of_isDigit hc] at h
    cases h
  · simp only [List.mem_cons, List.not_mem_nil, or_false] at hc
    rcases hc with rfl | rfl | rfl | rfl | rfl <;> exact absurd h (by decide)

end Text

/-! ## Empty lines of a machine -/

namespace Machine

variable {s : Settings} {source : String} {m : Machine}

/-- The line is reported as empty. -/
def FindsEmpty (m : Machine) (s : Settings) (source : String) : Prop :=
  ∃ f, (m.evaluateLine s source).1 = .error f ∧ f.isEmptyLine = true

/-- A line that cannot be parsed has the fault of its parse. -/
theorem evaluateLine_of_parse_error {f : Fault} (h : Expr.parse s m.bindings source = .error f) :
    (m.evaluateLine s source).1 = .error f := by
  rcases Run.parse_cases s source m with ⟨e, he, -⟩ | ⟨f', m', hf', hrun, -⟩
  · cases h.symm.trans he
  · cases h.symm.trans hf'
    have hline : m.evaluateLine s source = (.error f, m') := Reader.run_bind_of_error hrun _
    rw [hline]

theorem isEmptyLine_of_operandFault {w : Width} {f : Fault} (h : OperandFault w f) :
    f.isEmptyLine = false := by
  cases h <;> rfl

/-- A line is reported as empty if it has only spaces, and only then. -/
theorem findsEmpty_iff (hcap : (s.capacity : Int) ≤ Cursor.capacityLimit) :
    m.FindsEmpty s source ↔ ∀ c ∈ source.toList, isSpace c = true := by
  rw [← Expr.Parse.isEmptyLine_of_parse_iff hcap m.bindings]
  constructor
  · rintro ⟨f, hf, hempty⟩
    rcases fault_of_evaluateLine hf with hparse | hoperands
    · exact ⟨f, hparse, hempty⟩
    · rw [isEmptyLine_of_operandFault hoperands] at hempty
      cases hempty
  · rintro ⟨f, hf, hempty⟩
    exact ⟨f, evaluateLine_of_parse_error hf, hempty⟩

end Machine

namespace Shell

/-! ## One line -/

variable {s : Settings} {raw : String} {m m' : Machine}

/-- A line is skipped if all its characters are blank, and only then. -/
theorem answer_silent_iff :
    answer s raw m = (.ok .silent, m) ↔ Text.isBlankText (chomp raw) = true := by
  refine ⟨fun h => ?_, answer_of_blank⟩
  by_contra hblank
  rcases hline : m.evaluateLine s (chomp raw) with ⟨f | v, m'⟩
  · cases hcategory : f.category? with
    | none =>
      rw [answer_of_stop hblank hline hcategory] at h
      cases h
    | some category =>
      rw [answer_of_fault hblank hline hcategory] at h
      cases h
  · rw [answer_of_value hblank hline] at h
    cases h

/-- A failure that is reported is the one that the line has. -/
theorem evaluateLine_of_failed {f : Fault} (h : (answer s raw m).1 = .ok (.failed f)) :
    ¬ Text.isBlankText (chomp raw) = true ∧ (m.evaluateLine s (chomp raw)).1 = .error f := by
  have hblank : ¬ Text.isBlankText (chomp raw) = true := by
    intro hblank
    rw [answer_of_blank hblank] at h
    cases h
  refine ⟨hblank, ?_⟩
  rcases hline : m.evaluateLine s (chomp raw) with ⟨f' | v, m'⟩
  · cases hcategory : f'.category? with
    | none =>
      rw [answer_of_stop hblank hline hcategory] at h
      cases h
    | some category =>
      rw [answer_of_fault hblank hline hcategory] at h
      cases h
      rfl
  · rw [answer_of_value hblank hline] at h
    cases h

/-- Lines that would be reported as empty are skipped. -/
theorem isBlankText_of_findsEmpty (hcap : (s.capacity : Int) ≤ Cursor.capacityLimit)
    (h : m.FindsEmpty s (chomp raw)) : Text.isBlankText (chomp raw) = true :=
  List.all_eq_true.2 fun c hc => Text.isBlank_of_isSpace ((Machine.findsEmpty_iff hcap).1 h c hc)

/-- No line is reported as empty. -/
theorem isEmptyLine_of_failed {f : Fault} (hcap : (s.capacity : Int) ≤ Cursor.capacityLimit)
    (h : (answer s raw m).1 = .ok (.failed f)) : f.isEmptyLine = false := by
  obtain ⟨hblank, hline⟩ := evaluateLine_of_failed h
  by_contra hempty
  exact hblank (isBlankText_of_findsEmpty hcap ⟨f, hline, Bool.eq_true_of_not_eq_false hempty⟩)

/-- A line that is skipped and not empty would be reported for its first character but spaces. -/
theorem exists_of_blank (hcap : (s.capacity : Int) ≤ Cursor.capacityLimit)
    (hblank : Text.isBlankText (chomp raw) = true) (h : ¬ m.FindsEmpty s (chomp raw)) :
    ∃ front c back, (chomp raw).toList = front ++ c :: back ∧ (∀ d ∈ front, isSpace d = true) ∧
      Text.isBlank c = true ∧ isSpace c = false ∧
      (m.evaluateLine s (chomp raw)).1 =
        .error (.illegalCharacter (String.singleton c) ⟨front.length, front.length + 1⟩) := by
  have hsplit : (chomp raw).toList.takeWhile isSpace ++ (chomp raw).toList.dropWhile isSpace =
      (chomp raw).toList := List.takeWhile_append_dropWhile
  obtain ⟨c, back, hdrop⟩ : ∃ c back, (chomp raw).toList.dropWhile isSpace = c :: back := by
    refine List.exists_cons_of_ne_nil fun hnil => h ?_
    exact (Machine.findsEmpty_iff hcap).2 (List.dropWhile_eq_nil_iff.1 hnil)
  rw [hdrop] at hsplit
  have hspace : isSpace c = false := not_of_head?_dropWhile (by rw [hdrop]; rfl)
  have hc : Text.isBlank c = true := by
    refine List.all_eq_true.1 hblank c ?_
    rw [← hsplit]
    exact List.mem_append_right _ List.mem_cons_self
  have hfront : ∀ d ∈ (chomp raw).toList.takeWhile isSpace, isSpace d = true := fun d hd =>
    List.mem_takeWhile_imp hd
  refine ⟨_, c, back, hsplit.symm, hfront, hc, hspace, Machine.evaluateLine_of_parse_error ?_⟩
  exact Expr.Parse.parse_of_not_opens hcap m.bindings hsplit.symm hfront
    (Text.not_opens_of_isBlank hc hspace)

/-! ## Many lines -/

/-- No line of many is reported as empty. -/
theorem Answers.filled {raws : List String} {reports : List Report}
    (h : Answers s m raws reports m') (hcap : (s.capacity : Int) ≤ Cursor.capacityLimit) :
    ∀ f, .failed f ∈ reports → f.isEmptyLine = false := by
  induction h with
  | nil => exact fun f hf => absurd hf List.not_mem_nil
  | cons hanswer _ ih =>
    intro f hf
    rcases List.mem_cons.1 hf with rfl | hf
    · exact isEmptyLine_of_failed hcap (congrArg Prod.fst hanswer)
    · exact ih f hf

/-- A line that would be reported as empty is skipped, so that no line is ever reported as empty. A
line that is skipped would be reported as empty if its blank characters are spaces. Otherwise it would
be reported for the first one that is none. -/
theorem skipped_iff_empty (hcap : (s.capacity : Int) ≤ Cursor.capacityLimit) (raw : String)
    (m : Machine) :
    (m.FindsEmpty s (chomp raw) ↔ ∀ c ∈ (chomp raw).toList, isSpace c = true) ∧
    (m.FindsEmpty s (chomp raw) → answer s raw m = (.ok .silent, m)) ∧
    ((∀ c ∈ (chomp raw).toList, Text.isBlank c = true → isSpace c = true) →
      (answer s raw m = (.ok .silent, m) ↔ m.FindsEmpty s (chomp raw))) ∧
    (answer s raw m = (.ok .silent, m) → ¬ m.FindsEmpty s (chomp raw) →
      ∃ front c back, (chomp raw).toList = front ++ c :: back ∧ (∀ d ∈ front, isSpace d = true) ∧
        Text.isBlank c = true ∧ isSpace c = false ∧
        (m.evaluateLine s (chomp raw)).1 =
          .error (.illegalCharacter (String.singleton c) ⟨front.length, front.length + 1⟩)) ∧
    ∀ raws reports m', Answers s m raws reports m' →
      ∀ f, .failed f ∈ reports → f.isEmptyLine = false := by
  refine ⟨Machine.findsEmpty_iff hcap,
    fun h => answer_of_blank (isBlankText_of_findsEmpty hcap h), fun hspaces => ⟨fun h => ?_,
      fun h => answer_of_blank (isBlankText_of_findsEmpty hcap h)⟩,
    fun h hfilled => exists_of_blank hcap (answer_silent_iff.1 h) hfilled,
    fun _ _ _ h => h.filled hcap⟩
  have hblank := List.all_eq_true.1 (answer_silent_iff.1 h)
  exact (Machine.findsEmpty_iff hcap).2 fun c hc => hspaces c hc (hblank c hc)

/-- A line of a space and a tab is empty and skipped. -/
theorem skipped_iff_empty_tab :
    Machine.new.FindsEmpty .default (chomp " \t\n") ∧
      answer .default " \t\n" .new = (.ok .silent, .new) := by
  have hcap : ((Settings.default.capacity : Nat) : Int) ≤ Cursor.capacityLimit := by decide
  have hspaces : ∀ c ∈ (chomp " \t\n").toList, isSpace c = true :=
    List.all_eq_true.1 (by decide +kernel)
  have hempty := (skipped_iff_empty hcap " \t\n" .new).1.2 hspaces
  exact ⟨hempty, (skipped_iff_empty hcap " \t\n" .new).2.1 hempty⟩

/-- A form feed is skipped, though the line is not empty: it would be reported as illegal. -/
theorem answer_of_formFeed :
    answer .default "\x0c" .new = (.ok .silent, .new) ∧
      ¬ Machine.new.FindsEmpty .default (chomp "\x0c") ∧
      (Machine.new.evaluateLine .default (chomp "\x0c")).1 =
        .error (.illegalCharacter "\x0c" ⟨0, 1⟩) := by
  have hcap : ((Settings.default.capacity : Nat) : Int) ≤ Cursor.capacityLimit := by decide
  have hline : (chomp "\x0c").toList = [] ++ '\x0c' :: [] := by decide +kernel
  refine ⟨answer_of_blank ?_, ?_, Machine.evaluateLine_of_parse_error ?_⟩
  · rw [Text.isBlankText, hline]
    decide
  · rw [Machine.findsEmpty_iff hcap, hline]
    exact fun h => absurd (h '\x0c' List.mem_cons_self) (by decide)
  · exact Expr.Parse.parse_of_not_opens hcap _ hline (fun _ h => absurd h List.not_mem_nil) (by decide)

end Shell

end VectorCalc
