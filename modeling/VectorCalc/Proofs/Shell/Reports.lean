import VectorCalc.Proofs.Machine.Holdings
import VectorCalc.Proofs.Machine.Memory
import VectorCalc.Proofs.Shell.Endurance

/-!
# What the shell reports

The shell keeps a machine with a log, but a line reads nothing of it but the bindings. So what is
reported of some lines can be told without the shell: each line is evaluated on the bindings that the
lines before it have left, on a machine that has done nothing else (`reports`). As long as all faults
are reported, the shell writes these reports, counts the failures among them, and leaves the bindings
of the last line (`run_of_answers`, `answers_reports`).

A blank line and a line that fails leave the bindings as they are. So such lines may be left out, and
the other reports stay what they are (`reports_picked`).
-/

namespace VectorCalc.Shell

/-! ## Lines on bindings -/

/-- `line` is `raw` without the line ends at its end. -/
structure Chomped (raw line : String) : Prop where
  eq_append : ∃ ends : List Char, raw.toList = line.toList ++ ends ∧ ∀ c ∈ ends, c = '\r' ∨ c = '\n'
  getLast?_ne : ∀ c ∈ line.toList.getLast?, c ≠ '\r' ∧ c ≠ '\n'

theorem chomped_chomp (raw : String) : Chomped raw (chomp raw) := by
  let isEnd (c : Char) : Bool := c = '\r' || c = '\n'
  have hline : (chomp raw).toList = raw.toList.rdropWhile isEnd := String.toList_ofList
  refine ⟨⟨raw.toList.rtakeWhile isEnd, ?_, fun c hc => ?_⟩, fun c hc => ?_⟩
  · rw [hline, List.rdropWhile, List.rtakeWhile, ← List.reverse_append,
      List.takeWhile_append_dropWhile, List.reverse_reverse]
  · have hend : isEnd c = true := List.mem_rtakeWhile_imp hc
    simpa [isEnd] using hend
  · rw [hline] at hc
    obtain ⟨hne, hlast⟩ := List.mem_getLast?_eq_getLast hc
    have hnot : ¬ isEnd c = true := hlast ▸ List.rdropWhile_last_not isEnd raw.toList hne
    simpa [isEnd] using hnot

/-- The report of a line, by the bindings before it. -/
def reportOf (s : Settings) (raw : String) (b : Bindings) : Report :=
  if Text.isBlankText (chomp raw) then .silent
  else
    match ((Machine.ofBindings b).evaluateLine s (chomp raw)).1 with
    | .ok v => .value v
    | .error f => .failed f

/-- The bindings behind a line. -/
def bindingsAfter (s : Settings) (raw : String) (b : Bindings) : Bindings :=
  if Text.isBlankText (chomp raw) then b
  else ((Machine.ofBindings b).evaluateLine s (chomp raw)).2.bindings

/-- The reports of some lines, each by the bindings that the lines before it have left. -/
def reports (s : Settings) : List String → Bindings → List Report
  | [], _ => []
  | raw :: raws, b => reportOf s raw b :: reports s raws (bindingsAfter s raw b)

/-- The bindings behind some lines. -/
def bindingsBehind (s : Settings) (raws : List String) (b : Bindings) : Bindings :=
  raws.foldl (fun b raw => bindingsAfter s raw b) b

/-- The elements at the places that are marked. -/
def picked {α : Type} : List Bool → List α → List α
  | true :: keep, x :: xs => x :: picked keep xs
  | false :: keep, _ :: xs => picked keep xs
  | _, _ => []

variable {s : Settings} {prompt raw : String} {raws front back : List String} {b : Bindings}
  {m m' : Machine} {keep : List Bool}

theorem reports_cons (s : Settings) (raw : String) (raws : List String) (b : Bindings) :
    reports s (raw :: raws) b = reportOf s raw b :: reports s raws (bindingsAfter s raw b) := by
  rw [reports]

theorem bindingsBehind_cons (s : Settings) (raw : String) (raws : List String) (b : Bindings) :
    bindingsBehind s (raw :: raws) b = bindingsBehind s raws (bindingsAfter s raw b) := by
  rw [bindingsBehind, List.foldl_cons, bindingsBehind]

theorem reports_append (s : Settings) (front back : List String) (b : Bindings) :
    reports s (front ++ back) b = reports s front b ++ reports s back (bindingsBehind s front b) := by
  induction front generalizing b with
  | nil => rfl
  | cons raw front ih =>
    rw [List.cons_append, reports_cons, ih, reports_cons, bindingsBehind_cons, List.cons_append]

/-! ## The shell -/

/-- A line is answered by its report, if that is not a fault that stops the shell. -/
theorem answer_reportOf (h : ∀ f, reportOf s raw m.bindings = .failed f → f.isReported = true) :
    ∃ m', answer s raw m = (.ok (reportOf s raw m.bindings), m') ∧
      m'.bindings = bindingsAfter s raw m.bindings := by
  unfold reportOf at h ⊢
  unfold bindingsAfter
  by_cases hblank : Text.isBlankText (chomp raw) = true
  · rw [if_pos hblank, if_pos hblank]
    exact ⟨m, answer_of_blank hblank, rfl⟩
  -- the machine of the shell has the same bindings as the one that has done nothing else
  have hsame : m.bindings = (Machine.ofBindings m.bindings).bindings := rfl
  obtain ⟨houtcome, hbindings⟩ := Machine.evaluateLine_congr (s := s) rfl rfl (chomp raw) hsame
  rw [if_neg hblank, ← houtcome] at h
  rw [if_neg hblank, if_neg hblank, ← houtcome, ← hbindings]
  rcases hline : m.evaluateLine s (chomp raw) with ⟨f | v, m'⟩
  · rw [hline] at h
    have hreported := h f rfl
    cases hcategory : f.category? with
    | none =>
      rw [Fault.isReported, hcategory] at hreported
      cases hreported
    | some category => exact ⟨_, answer_of_fault hblank hline hcategory, rfl⟩
  · exact ⟨m', answer_of_value hblank hline, rfl⟩

/-- Lines are answered by their reports, if no fault stops the shell. -/
theorem answers_reports
    (h : ∀ f, .failed f ∈ reports s raws m.bindings → f.isReported = true) :
    ∃ m', Answers s m raws (reports s raws m.bindings) m' ∧
      m'.bindings = bindingsBehind s raws m.bindings := by
  induction raws generalizing m with
  | nil => exact ⟨m, .nil m, rfl⟩
  | cons raw raws ih =>
    rw [reports_cons] at h ⊢
    rw [bindingsBehind_cons]
    obtain ⟨m₁, hanswer, hm₁⟩ :=
      answer_reportOf fun f hf => h f (by rw [hf]; exact List.mem_cons_self)
    rw [← hm₁] at h ⊢
    obtain ⟨m', hanswers, hm'⟩ := ih fun f hf => h f (List.mem_cons_of_mem _ hf)
    exact ⟨m', .cons hanswer hanswers, hm'⟩

/-- The shell writes the reports of lines that have all been answered. -/
theorem run_of_answers {reports : List Report} (h : Answers s m raws reports m') :
    run s prompt (.ofLines raws) m =
      ⟨prompt ++ written prompt reports ++ (if prompt = "" then "" else "\n"),
        failureCount reports, m', none⟩ := by
  have hall : answerAll s prompt none (raws ++ []) m = _ := h.answerAll_append []
  rw [List.append_nil] at hall
  unfold run Feed.ofLines
  rw [hall]
  by_cases hprompt : prompt = "" <;> simp [answerAll, hprompt]

/-- Without a prompt the shell goes on behind lines that have all been answered as if it began there. -/
theorem run_append {reports : List Report} (h : Answers s m front reports m') (back : List String) :
    run s "" (.ofLines (front ++ back)) m =
      ⟨written "" reports ++ (run s "" (.ofLines back) m').out,
        failureCount reports + (run s "" (.ofLines back) m').failures,
        (run s "" (.ofLines back) m').machine, (run s "" (.ofLines back) m').escaped⟩ := by
  unfold run Feed.ofLines
  dsimp only
  rw [h.answerAll_append]
  simp

/-! ## Lines that are left out -/

/-- A line without a value leaves the bindings as they are. -/
theorem bindingsAfter_of_ne_value (h : ∀ v, reportOf s raw b ≠ .value v) :
    bindingsAfter s raw b = b := by
  unfold reportOf at h
  unfold bindingsAfter
  by_cases hblank : Text.isBlankText (chomp raw) = true
  · rw [if_pos hblank]
  rw [if_neg hblank] at h ⊢
  have hends := Machine.ends_evaluateLine s (chomp raw) (Machine.ofBindings b)
  generalize (Machine.ofBindings b).evaluateLine s (chomp raw) = step at h hends
  cases hends with
  | failed f hm' => exact hm'
  | value => exact absurd rfl (h _)
  | assigned => exact absurd rfl (h _)

/-- Lines that fail and blank lines may be left out: the other lines have the reports that they had, and
the last one leaves the same bindings. -/
theorem reports_picked
    (h : List.Forall₂ (fun k r => k = true ∨ ∀ v, r ≠ .value v) keep (reports s raws b)) :
    reports s (picked keep raws) b = picked keep (reports s raws b) ∧
      bindingsBehind s (picked keep raws) b = bindingsBehind s raws b := by
  induction raws generalizing keep b with
  | nil =>
    cases h
    exact ⟨rfl, rfl⟩
  | cons raw raws ih =>
    rw [reports_cons, List.forall₂_cons_right_iff] at h
    obtain ⟨k, keep, hk, hrest, rfl⟩ := h
    obtain ⟨hreports, hbindings⟩ := ih hrest
    rw [reports_cons, bindingsBehind_cons]
    cases k with
    | true =>
      rw [picked, picked, reports_cons, bindingsBehind_cons, hreports]
      exact ⟨rfl, hbindings⟩
    | false =>
      have hsame : bindingsAfter s raw b = b :=
        bindingsAfter_of_ne_value (hk.resolve_left Bool.false_ne_true)
      rw [picked, picked]
      rw [hsame] at hreports hbindings ⊢
      exact ⟨hreports, hbindings⟩

theorem mem_of_picked {α : Type} {keep : List Bool} {x : α} {xs : List α} (h : x ∈ picked keep xs) :
    x ∈ xs := by
  induction xs generalizing keep with
  | nil =>
    cases keep with
    | nil => exact h
    | cons k keep => cases k <;> exact h
  | cons y ys ih =>
    cases keep with
    | nil => cases h
    | cons k keep =>
      cases k with
      | true =>
        rcases List.mem_cons.1 h with rfl | h
        · exact List.mem_cons_self
        · exact List.mem_cons_of_mem _ (ih h)
      | false => exact List.mem_cons_of_mem _ (ih h)

/-- What the shell has written, counted and bound behind lines of which all faults are reported. -/
theorem run_of_reports (h : ∀ f, .failed f ∈ reports s raws m.bindings → f.isReported = true)
    (prompt : String) :
    ∃ m', run s prompt (.ofLines raws) m =
        ⟨prompt ++ written prompt (reports s raws m.bindings) ++ (if prompt = "" then "" else "\n"),
          failureCount (reports s raws m.bindings), m', none⟩ ∧
      m'.bindings = bindingsBehind s raws m.bindings := by
  obtain ⟨m', hanswers, hm'⟩ := answers_reports h
  exact ⟨m', run_of_answers hanswers, hm'⟩

/-- If all faults of some lines are reported, then the shell writes the prompt, for each line its report
and the prompt, and at last a line end unless the prompt is empty; it counts the faults. A line is
evaluated without the line ends at its end, and what is written for it is nothing, its value or its fault.
Any lines that are blank or fail may be left out, and the reports of the others and the bindings at the
end remain the same. And without a prompt lines may be run in two parts, the second one on the machine
that the first one has left. -/
theorem run_reports (s : Settings) (prompt : String) (raws : List String) (m : Machine)
    (h : ∀ f, .failed f ∈ reports s raws m.bindings → f.isReported = true) :
    (∃ m', run s prompt (.ofLines raws) m =
        ⟨prompt ++ written prompt (reports s raws m.bindings) ++ (if prompt = "" then "" else "\n"),
          failureCount (reports s raws m.bindings), m', none⟩ ∧
      m'.bindings = bindingsBehind s raws m.bindings) ∧
    (∀ raw, Chomped raw (chomp raw)) ∧
    (∀ keep, List.Forall₂ (fun k r => k = true ∨ ∀ v, r ≠ .value v) keep
        (reports s raws m.bindings) →
      ∃ m', run s prompt (.ofLines (picked keep raws)) m =
          ⟨prompt ++ written prompt (picked keep (reports s raws m.bindings)) ++
              (if prompt = "" then "" else "\n"),
            failureCount (picked keep (reports s raws m.bindings)), m', none⟩ ∧
        m'.bindings = bindingsBehind s raws m.bindings) ∧
    ∀ front back, raws = front ++ back →
      let first := run s "" (.ofLines front) m
      let second := run s "" (.ofLines back) first.machine
      run s "" (.ofLines raws) m =
        ⟨first.out ++ second.out, first.failures + second.failures, second.machine, none⟩ := by
  refine ⟨run_of_reports h prompt, chomped_chomp, ?_, ?_⟩
  · intro keep hkeep
    obtain ⟨hreports, hbindings⟩ := reports_picked hkeep
    rw [← hreports, ← hbindings]
    apply run_of_reports
    intro f hf
    rw [hreports] at hf
    exact h f (mem_of_picked hf)
  · intro front back hraws
    rw [hraws, reports_append] at h
    obtain ⟨m₁, hfront, hm₁⟩ := answers_reports fun f hf => h f (List.mem_append_left _ hf)
    rw [← hm₁] at h
    obtain ⟨m₂, hback, -⟩ := answers_reports fun f hf => h f (List.mem_append_right _ hf)
    rw [hraws, run_append hfront, run_of_answers hfront]
    dsimp only
    rw [run_of_answers hback]
    simp

/-- A blank line and a line that fails are left out, and the line after them still has its value. -/
theorem run_reports_squares :
    ∃ m m', run .default ">" (.ofLines ["x = 3\r\n", " \t\n", "y", "x * x"]) .new =
        ⟨">3\n>>error: Undefined variable \x27y\x27\n>9\n>\n", 1, m, none⟩ ∧
      run .default ">" (.ofLines ["x = 3\r\n", "x * x"]) .new = ⟨">3\n>9\n>\n", 0, m', none⟩ ∧
      m.bindings = m'.bindings := by
  have hreports : reports .default ["x = 3\r\n", " \t\n", "y", "x * x"] Machine.new.bindings =
      [.value (.int 3), .silent, .failed (.undefined (.text "y")), .value (.int 9)] := by
    decide +kernel
  obtain ⟨⟨m, hrun, hm⟩, -, hpicked, -⟩ :=
    run_reports .default ">" ["x = 3\r\n", " \t\n", "y", "x * x"] .new (by
      rw [hreports]
      intro f hf
      simp only [List.mem_cons, Report.failed.injEq, reduceCtorEq, List.not_mem_nil, or_false,
        false_or] at hf
      rw [hf]
      rfl)
  obtain ⟨m', hrun', hm'⟩ := hpicked [true, false, false, true] (by
    rw [hreports]
    exact .cons (.inl rfl) (.cons (.inr nofun) (.cons (.inr nofun) (.cons (.inl rfl) .nil))))
  rw [hreports] at hrun hrun'
  have hout : ">" ++ written ">" [.value (.int 3), .silent, .failed (.undefined (.text "y")),
      .value (.int 9)] ++ (if ">" = "" then "" else "\n") =
        ">3\n>>error: Undefined variable \x27y\x27\n>9\n>\n" := by
    decide +kernel
  have hout' : ">" ++ written ">" (picked [true, false, false, true] [.value (.int 3), .silent,
      .failed (.undefined (.text "y")), .value (.int 9)]) ++ (if ">" = "" then "" else "\n") =
        ">3\n>9\n>\n" := by
    decide +kernel
  rw [hout] at hrun
  rw [hout'] at hrun'
  exact ⟨m, m', hrun, hrun', hm.trans hm'.symm⟩

end VectorCalc.Shell
