import VectorCalc.Proofs.Shell.Endurance
import VectorCalc.Proofs.Text.Utf8
import VectorCalc.Shell.Command

/-!
# Where lines come from

The command takes its lines from its arguments, from a file, or from standard input. A file and the
input are bytes, which are decoded and cut at their line ends; an argument is a line as it stands. If
the lines have no line ends in them, and each is written with one behind it, then all three give the
same lines (`Feed.ofBytes_textOf`, `ofArguments_commands`), and so the command does the same
(`runs_agree`). No other character cuts a line.

An argument cannot give the line `--` to its switch. Where it is said what the switches are given,
that line is no exception.
-/

namespace VectorCalc

/-! ## Lines of a text -/

namespace Text

/-- There is no line end in the line. -/
def Whole (line : String) : Prop := '\n' ∉ line.toList ∧ '\r' ∉ line.toList

instance (line : String) : Decidable (Whole line) := inferInstanceAs (Decidable (_ ∧ _))

/-- The text of some lines, each with a line feed behind it. -/
def textOf (lines : List String) : String := String.join (lines.map (· ++ "\n"))

theorem toList_textOf_cons (line : String) (lines : List String) :
    (textOf (line :: lines)).toList = line.toList ++ '\n' :: (textOf lines).toList := by
  simp [textOf]

/-- A text without carriage returns has the line ends that it has. -/
theorem unifyLineEnds_of_not_mem {cs : List Char} (h : '\r' ∉ cs) : unifyLineEnds cs = cs := by
  induction cs using unifyLineEnds.induct with
  | case1 => rfl
  | case2 cs => exact absurd List.mem_cons_self h
  | case3 c cs hpair ih =>
    have hc : c ≠ '\r' := fun hc => h (hc ▸ List.mem_cons_self)
    rw [unifyLineEnds, if_neg hc, ih fun hcs => h (List.mem_cons_of_mem c hcs)]
    exact hpair

/-- The first line ends at the first line feed. -/
theorem splitLines_append {line rest : List Char} (h : '\n' ∉ line) :
    splitLines (line ++ '\n' :: rest) = (line :: (splitLines rest).1, (splitLines rest).2) := by
  induction line with
  | nil => rfl
  | cons c cs ih =>
    have hc : c ≠ '\n' := fun hc => h (hc ▸ List.mem_cons_self)
    rw [List.cons_append, splitLines, ih fun hcs => h (List.mem_cons_of_mem c hcs)]
    dsimp only
    rw [if_neg hc]

theorem splitLines_textOf {lines : List String} (h : ∀ line ∈ lines, Whole line) :
    splitLines (textOf lines).toList = (lines.map String.toList, []) := by
  induction lines with
  | nil => rfl
  | cons line lines ih =>
    obtain ⟨hline, hlines⟩ := List.forall_mem_cons.1 h
    rw [toList_textOf_cons, splitLines_append hline.1, ih hlines, List.map_cons]

theorem not_mem_textOf {lines : List String} (h : ∀ line ∈ lines, Whole line) :
    '\r' ∉ (textOf lines).toList := by
  induction lines with
  | nil => exact List.not_mem_nil
  | cons line lines ih =>
    obtain ⟨hline, hlines⟩ := List.forall_mem_cons.1 h
    rw [toList_textOf_cons, List.mem_append, List.mem_cons, not_or, not_or]
    exact ⟨hline.2, by decide, ih hlines⟩

/-- Lines are read back from their text. -/
theorem lines_textOf {ls : List String} (h : ∀ line ∈ ls, Whole line) :
    lines (textOf ls).toList = ls := by
  rw [lines, unifyLineEnds_of_not_mem (not_mem_textOf h), splitLines_textOf h]
  simp

end Text

namespace Shell

open Text

/-- Lines are read back from the bytes of their text. -/
theorem Feed.ofBytes_textOf {lines : List String} (h : ∀ line ∈ lines, Whole line) :
    Feed.ofBytes (Utf8.encode (textOf lines)) = .ofLines lines := by
  rw [Feed.ofBytes, Utf8.decode_encode]
  dsimp only
  rw [lines_textOf h]
  rfl

/-! ## Lines with their ends -/

variable {s : Settings}

/-- A line feed behind a line is cut off. -/
theorem chomp_append_feed (raw : String) : chomp (raw ++ "\n") = chomp raw := by
  have hrev : (raw ++ "\n").toList.reverse = '\n' :: raw.toList.reverse := by simp
  rw [chomp, hrev, List.dropWhile_cons_of_pos (by decide), chomp]

theorem answer_append_feed (s : Settings) (raw : String) (m : Machine) :
    answer s (raw ++ "\n") m = answer s raw m := by
  unfold answer
  rw [chomp_append_feed]

theorem answerAll_map_feed (s : Settings) (prompt : String) (broken : Option Fault)
    (lines : List String) (m : Machine) :
    answerAll s prompt broken (lines.map (· ++ "\n")) m = answerAll s prompt broken lines m := by
  induction lines generalizing m with
  | nil => rfl
  | cons line lines ih =>
    rw [List.map_cons, answerAll, answerAll, answer_append_feed]
    rcases answer s line m with ⟨f | report, m'⟩
    · rfl
    · dsimp only
      rw [ih]

/-- Lines are answered in the same way with their ends and without them. -/
theorem run_map_feed (s : Settings) (prompt : String) (lines : List String) (m : Machine) :
    run s prompt (.ofLines (lines.map (· ++ "\n"))) m = run s prompt (.ofLines lines) m := by
  rw [run, run, Feed.ofLines, Feed.ofLines, answerAll_map_feed]

/-! ## Lines as arguments -/

/-- The argument that gives a line. -/
def commandArgument (line : String) : String := "--command=" ++ line

theorem toList_commandArgument (line : String) :
    (commandArgument line).toList = "--command".toList ++ '=' :: line.toList := by
  rw [commandArgument, String.toList_append]
  rfl

/-- No switch is spelled with an equals sign. -/
theorem Switch.ofSpelling?_of_mem {argument : String} (h : '=' ∈ argument.toList) :
    Switch.ofSpelling? argument = none := by
  have hspellings : ∀ e ∈ Switch.spellings, '=' ∉ e.1.toList := by decide
  rw [Switch.ofSpelling?, List.lookup_eq_none_iff]
  intro e he
  rw [bne_iff_ne]
  rintro rfl
  exact hspellings e he h

/-- The first equals sign is the one that counts. -/
theorem splitEquals_append {name value : List Char} (h : '=' ∉ name) :
    splitEquals (name ++ '=' :: value) = (name, some value) := by
  have hname : ∀ c ∈ name, decide (c ≠ '=') = true := fun c hc =>
    decide_eq_true fun he => h (he ▸ hc)
  have hstop : ∀ c, ('=' :: value).head? = some c → decide (c ≠ '=') = false := by
    rintro c ⟨⟩
    rfl
  obtain ⟨htake, hdrop⟩ := Token.span_append hname hstop
  rw [splitEquals, htake, hdrop]

/-- The argument is the switch with the line attached to it. -/
theorem Word.ofArgument_command (line : String) :
    Word.ofArgument (commandArgument line) =
      .ok (.switch .command (some ⟨true, line.toList⟩)) := by
  have hchars := toList_commandArgument line
  have hspelling : Switch.ofSpelling? (commandArgument line) = none := by
    refine Switch.ofSpelling?_of_mem ?_
    rw [hchars]
    exact List.mem_append_right _ List.mem_cons_self
  have hsplit : splitEquals (commandArgument line).toList =
      ("--command".toList, some line.toList) := by
    rw [hchars]
    exact splitEquals_append (by decide)
  have hhead : (commandArgument line).toList.head? = some '-' := by
    rw [hchars]
    rfl
  rw [Word.ofArgument, if_neg (not_not.2 hhead), hspelling, hsplit]
  rfl

theorem Word.ofArguments_commands (lines : List String) :
    Word.ofArguments (lines.map commandArgument) =
      .ok (lines.map fun line => .switch .command (some ⟨true, line.toList⟩)) := by
  induction lines with
  | nil => rfl
  | cons line lines ih =>
    have hne : commandArgument line ≠ "--" := by
      intro h
      have hchars := congrArg String.toList h
      rw [toList_commandArgument] at hchars
      cases hchars
    rw [List.map_cons, Word.ofArguments, if_neg hne, Word.ofArgument_command, ih]
    rfl

/-- What is attached is given, unless it is the separator. -/
theorem Attached.given_of_ne {line : String} (h : line ≠ "--") :
    (Attached.mk true line.toList).given = some line := by
  have hne : line.toList ≠ ['-', '-'] := fun he => h (String.toList_inj.1 he)
  rw [Attached.given, if_neg hne, String.ofList_toList]

theorem Taken.all_commands {lines : List String} (h : "--" ∉ lines) (t : Taken) :
    Taken.all (lines.map fun line => .switch .command (some ⟨true, line.toList⟩)) t =
      .ok { t with
        options := { t.options with commands := t.options.commands ++ lines.map some } } := by
  induction lines generalizing t with
  | nil => simp [Taken.all]
  | cons line lines ih =>
    rw [List.mem_cons, not_or] at h
    rw [List.map_cons, Taken.all, Attached.given_of_ne (Ne.symm h.1), Options.take]
    · show Taken.all _ _ = _
      rw [ih h.2]
      simp
    · nofun

/-- One argument for each line asks for these lines. -/
theorem ofArguments_commands {lines : List String} (h : "--" ∉ lines) :
    Options.ofArguments (lines.map commandArgument) =
      .ok { Options.default with commands := lines.map some } := by
  rw [Options.ofArguments, Word.ofArguments_commands]
  dsimp only
  rw [Taken.all_commands h]
  rfl

/-- A word that is no switch asks for a file. -/
theorem ofArguments_file {path : String} (h : path.toList.head? ≠ some '-') :
    Options.ofArguments [path] = .ok { Options.default with file := some path } := by
  have hne : path ≠ "--" := by
    rintro rfl
    exact h (by decide)
  have hword : Word.ofArgument path = .ok (.plain path) := by
    rw [Word.ofArgument]
    exact if_pos h
  rw [Options.ofArguments, Word.ofArguments, if_neg hne, hword]
  rfl

/-! ## Runs of the command -/

/-- What a run of the command over the lines leaves behind: it has answered all lines and ends with
exit code 0, or it has stopped at a line with the fault of that line, all lines before answered. -/
def Tells (s : Settings) (lines : List String) (o : Outcome) : Prop :=
  ∃ front reports m, Answers s .new front reports m ∧ o.out = written "" reports ∧
    ((front = lines ∧ o.code = some 0 ∧ o.escaped = none) ∨
      ∃ raw back f m', lines = front ++ raw :: back ∧ answer s raw m = (.error f, m') ∧
        o.code = none ∧ o.escaped = some f)

theorem tells_run (s : Settings) (lines : List String) (level : Level) :
    Tells s lines ((run s "" (.ofLines lines) .new).outcome level) := by
  obtain ⟨front, back, reports, m, hlines, hfront, -, hback⟩ := exists_answers s lines .new
  have hrun : run s "" (.ofLines lines) .new = answerAll s "" none lines .new := by
    rw [run, Feed.ofLines]
    simp
  have hall : answerAll s "" none lines .new = _ :=
    (congrArg (answerAll s "" none · .new) hlines).trans (hfront.answerAll_append back)
  rcases hback with rfl | ⟨raw, rest, f, m', rfl, hanswer, -⟩
  · refine ⟨front, reports, m, hfront, ?_, .inl ⟨by rw [hlines, List.append_nil], ?_, ?_⟩⟩ <;>
      simp [Transcript.outcome, hrun, hall, answerAll]
  · refine ⟨front, reports, m, hfront, ?_, .inr ⟨raw, rest, f, m', hlines, hanswer, ?_, ?_⟩⟩ <;>
      simp [Transcript.outcome, hrun, hall, answerAll, hanswer]

section

variable {o : Options} {lines : List String} {w : World} {level : Level}

theorem Options.run_of_level (h : o.level = some level) (w : World) :
    o.run s w = o.runAt s w level := by
  rw [Options.run, h]

/-- Lines that are given to switches. -/
theorem runAt_of_commands (hne : lines ≠ []) (hcommands : o.commands = lines.map some) :
    o.runAt s w level = (run s "" (.ofLines lines) .new).outcome level := by
  have hsome : o.commands ≠ [] := hcommands ▸ mt List.map_eq_nil_iff.1 hne
  rw [Options.runAt]
  dsimp only
  rw [if_pos hsome, hcommands, Feed.ofCommands_map_some]

/-- Lines of a file. -/
theorem runAt_of_file {path : String} (h : ∀ line ∈ lines, Whole line) (hcommands : o.commands = [])
    (hfile : o.file = some path) (hprompt : o.prompt = none) (hpath : '\x00' ∉ path.toList)
    (hread : w.read path = .ok (Utf8.encode (textOf lines))) :
    o.runAt s w level = (run s "" (.ofLines lines) .new).outcome level := by
  rw [Options.runAt]
  dsimp only
  rw [if_neg (not_not.2 hcommands), hfile]
  dsimp only
  rw [if_neg hpath, hread]
  dsimp only
  rw [Feed.ofBytes_textOf h, filePrompt, hprompt]
  rfl

/-- Lines of standard input that is no terminal. -/
theorem runAt_of_input (h : ∀ line ∈ lines, Whole line) (hcommands : o.commands = [])
    (hfile : o.file = none) (hprompt : o.prompt = none)
    (hinput : w.input = Utf8.encode (textOf lines)) (hterminal : w.terminal = false) :
    o.runAt s w level = (run s "" (.ofLines lines) .new).outcome level := by
  rw [Options.runAt]
  dsimp only
  rw [if_neg (not_not.2 hcommands), hfile]
  dsimp only
  rw [inputPrompt, hprompt, hterminal, hinput, Feed.ofBytes_textOf h]
  rfl

end

/-- Given as arguments, by a file, or by standard input, lines are answered in the same way: the same
is written, and the run ends with exit code 0, or it stops at the same line with the same fault. -/
theorem runs_agree (s : Settings) {lines : List String} (hne : lines ≠ [])
    (h : ∀ line ∈ lines, Whole line) :
    ∃ o, Tells s lines o ∧
      (∀ w, Options.run s w { Options.default with commands := lines.map some } = o) ∧
      ("--" ∉ lines → ∀ w, runCommand s w (lines.map commandArgument) = o) ∧
      (∀ w path, path.toList.head? ≠ some '-' → '\x00' ∉ path.toList →
        w.read path = .ok (Utf8.encode (textOf lines)) → runCommand s w [path] = o) ∧
      (∀ w, w.input = Utf8.encode (textOf lines) → w.terminal = false → runCommand s w [] = o) ∧
      ∀ prompt m, run s prompt (.ofLines (lines.map (· ++ "\n"))) m =
        run s prompt (.ofLines lines) m := by
  have hcommands : ∀ w, Options.run s w { Options.default with commands := lines.map some } =
      (run s "" (.ofLines lines) .new).outcome .warning := fun w =>
    (Options.run_of_level rfl w).trans (runAt_of_commands hne rfl)
  refine ⟨_, tells_run s lines .warning, hcommands, fun hdashes w => ?_,
    fun w path hhead hpath hread => ?_, fun w hinput hterminal => ?_,
    fun prompt m => run_map_feed s prompt lines m⟩
  · rw [runCommand, ofArguments_commands hdashes]
    exact hcommands w
  · rw [runCommand, ofArguments_file hhead]
    exact (Options.run_of_level rfl w).trans (runAt_of_file h rfl rfl rfl hpath hread)
  · show Options.run s w Options.default = _
    exact (Options.run_of_level rfl w).trans (runAt_of_input h rfl rfl rfl hinput hterminal)

/-- A line that binds a name, a line with a separator that ends no line, and a line that fails. -/
theorem runs_agree_separator :
    let lines := ["a = 2", "a\u2028* a", "a +"]
    let bytes := Utf8.encode (textOf lines)
    let w : World := ⟨(Folder.empty.write "e" bytes).read, bytes, false⟩
    runCommand .default w (lines.map commandArgument) = runCommand .default w ["e"] ∧
      runCommand .default w ["e"] = runCommand .default w [] := by
  intro lines bytes w
  have hwhole : ∀ line ∈ lines, Whole line := by decide +kernel
  have hread : w.read "e" = .ok bytes := rfl
  obtain ⟨o, -, -, harguments, hfile, hinput, -⟩ :=
    runs_agree .default (show lines ≠ [] by decide) hwhole
  have hfile' := hfile w "e" (by decide) (by decide) hread
  exact ⟨(harguments (by decide) w).trans hfile'.symm, hfile'.trans (hinput w rfl rfl).symm⟩

end Shell

end VectorCalc
