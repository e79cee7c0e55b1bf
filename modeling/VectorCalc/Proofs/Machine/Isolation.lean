import VectorCalc.Machine.Pool
import VectorCalc.Proofs.Machine.Holdings
import VectorCalc.Proofs.Machine.Memory

/-!
# Interpreters side by side

Lines come to the interpreters of a pool in any order. A table of bindings sees those only that are
addressed to the interpreters attached to it: what these lines give and what they leave in the table is
what a session of its own on the table gives and leaves (`Pool.answers_eq_session`).

What all interpreters have in common is the log and the operators that some of them has prepared. Both
differ from those of the session alone. But no line reads the log, and the kernels that it finds are
those of its operators, so they make no difference to it (`Machine.evaluateLine_congr`). So the
induction over the lines carries a machine that has the bindings of the table and nothing else of the
pool.
-/

namespace VectorCalc

/-! ## Sessions as the table sees them -/

namespace Machine

variable {s : Settings} {m m' : Machine}

/-- What the lines of a session give, and the bindings behind each of them. -/
def seen (s : Settings) (lines : List String) (m : Machine) : List (Except Fault Value × Bindings) :=
  (m.session s lines).map fun step => (step.1, step.2.bindings)

theorem seen_cons (s : Settings) (line : String) (lines : List String) (m : Machine) :
    m.seen s (line :: lines) =
      ((m.evaluateLine s line).1, (m.evaluateLine s line).2.bindings) ::
        (m.evaluateLine s line).2.seen s lines := rfl

theorem after_cons (s : Settings) (line : String) (lines : List String) (m : Machine) :
    m.after s (line :: lines) = (m.evaluateLine s line).2.after s lines := rfl

end Machine

/-! ## Steps of a pool -/

namespace Pool

variable {s : Settings} {p : Pool} {slot : Slot} {interpreter line : String}
  {steps steps' : List (String × String)}

/-- The lines that are addressed to interpreters attached to a slot. -/
def addressed (p : Pool) (slot : Slot) (steps : List (String × String)) : List String :=
  (steps.filter fun step => p.slotOf step.1 = slot).map Prod.snd

/-- The pool behind lines that are evaluated one after the other. -/
def after (s : Settings) (steps : List (String × String)) (p : Pool) : Pool :=
  steps.foldl (fun p step => (p.step s step.1 step.2).2) p

/-- What the lines give that are addressed to interpreters attached to a slot, and the table in the
slot behind each of them. -/
def answers (s : Settings) (slot : Slot) (steps : List (String × String)) (p : Pool) :
    List (Except Fault Value × Bindings) :=
  ((steps.zip (p.run s steps)).filter fun step => p.slotOf step.1.1 = slot).map
    fun step => (step.2.1, step.2.2.tables slot)

/-- A step replaces the table of the interpreter, and touches no other table. -/
theorem tables_step (s : Settings) (interpreter line : String) (p : Pool) (slot : Slot) :
    (p.step s interpreter line).2.tables slot =
      if slot = p.slotOf interpreter then ((p.machineOf interpreter).evaluateLine s line).2.bindings
      else p.tables slot := rfl

theorem length_run (s : Settings) (steps : List (String × String)) (p : Pool) :
    (p.run s steps).length = steps.length := by
  induction steps generalizing p with
  | nil => rfl
  | cons step steps ih => rw [run, List.length_cons, List.length_cons, ih]

/-! ### The first step -/

theorem addressed_of_eq (h : p.slotOf interpreter = slot) :
    p.addressed slot ((interpreter, line) :: steps) = line :: p.addressed slot steps := by
  unfold addressed
  rw [List.filter_cons_of_pos (by simpa using h), List.map_cons]

theorem addressed_of_ne (h : p.slotOf interpreter ≠ slot) :
    p.addressed slot ((interpreter, line) :: steps) = p.addressed slot steps := by
  unfold addressed
  rw [List.filter_cons_of_neg (by simpa using h)]

theorem answers_of_eq (h : p.slotOf interpreter = slot) :
    p.answers s slot ((interpreter, line) :: steps) =
      ((p.step s interpreter line).1, (p.step s interpreter line).2.tables slot) ::
        (p.step s interpreter line).2.answers s slot steps := by
  unfold answers
  rw [run, List.zip_cons_cons, List.filter_cons_of_pos (by simpa using h), List.map_cons]
  rfl

theorem answers_of_ne (h : p.slotOf interpreter ≠ slot) :
    p.answers s slot ((interpreter, line) :: steps) =
      (p.step s interpreter line).2.answers s slot steps := by
  unfold answers
  rw [run, List.zip_cons_cons, List.filter_cons_of_neg (by simpa using h)]
  rfl

/-! ## Runs -/

/-- The lines of a slot give and leave what they give and leave on a machine of their own that begins
with the table of the slot. -/
theorem answers_eq_session (s : Settings) (slot : Slot) (steps : List (String × String))
    {p : Pool} {m : Machine} (hm : m.bindings = p.tables slot) :
    p.answers s slot steps = m.seen s (p.addressed slot steps) ∧
      (p.after s steps).tables slot = (m.after s (p.addressed slot steps)).bindings := by
  induction steps generalizing p m with
  | nil => exact ⟨rfl, hm.symm⟩
  | cons step steps ih =>
    obtain ⟨interpreter, line⟩ := step
    have htables := tables_step s interpreter line p slot
    by_cases h : p.slotOf interpreter = slot
    · rw [if_pos h.symm] at htables
      -- the machine of the interpreter has the same bindings, and nothing else of it is read
      have hmachine : (p.machineOf interpreter).bindings = m.bindings := by
        rw [hm, ← h]
        rfl
      have hstep : ((p.machineOf interpreter).evaluateLine s line).1 = (m.evaluateLine s line).1 ∧
          ((p.machineOf interpreter).evaluateLine s line).2.bindings =
            (m.evaluateLine s line).2.bindings := Machine.evaluateLine_congr rfl rfl line hmachine
      obtain ⟨houtcome, hbindings⟩ := hstep
      have hnext : (m.evaluateLine s line).2.bindings = (p.step s interpreter line).2.tables slot :=
        (htables.trans hbindings).symm
      obtain ⟨hanswers, hafter⟩ := ih hnext
      rw [answers_of_eq h, addressed_of_eq h, Machine.seen_cons, Machine.after_cons]
      refine ⟨?_, hafter⟩
      rw [hanswers, ← hnext]
      exact congrArg (fun o => (o, _) :: _) houtcome
    · rw [if_neg (Ne.symm h)] at htables
      rw [answers_of_ne h, addressed_of_ne h]
      exact ih (hm.trans htables.symm)

/-- Two interpreters that are attached to the same slot can stand for each other. -/
theorem step_congr {other : String} (h : p.slotOf interpreter = p.slotOf other) :
    p.step s interpreter line = p.step s other line := by
  unfold step machineOf bindingsOf
  rw [h]

/-- So lines may be addressed to other interpreters of the same slots. -/
theorem run_congr {slotOf : String → Slot} (hp : p.slotOf = slotOf)
    (h : List.Forall₂ (fun step step' => slotOf step.1 = slotOf step'.1 ∧ step.2 = step'.2) steps
      steps') : p.run s steps = p.run s steps' := by
  induction h generalizing p with
  | nil => rfl
  | @cons step step' steps steps' hstep _ ih =>
    obtain ⟨interpreter, line⟩ := step
    obtain ⟨other, line'⟩ := step'
    obtain ⟨hslot, hline⟩ := hstep
    rw [← hp] at hslot
    have hfirst : p.step s interpreter line = p.step s other line' :=
      (step_congr hslot).trans (congrArg (p.step s other) hline)
    have hrest : (p.step s interpreter line).2.slotOf = slotOf := hp
    rw [run, run, ← hfirst, ih hrest]

/-- Every line that comes to a pool gives an outcome. For each table, the lines that come to
interpreters attached to it give and leave what they give and leave in a session on this table alone. So
it does not matter for them which lines come to other tables and in what order, nor to which of the
interpreters attached to a table a line is addressed. -/
theorem run_isolated (s : Settings) (steps : List (String × String)) (p : Pool) :
    (p.run s steps).length = steps.length ∧
    (∀ slot,
      p.answers s slot steps =
        (Machine.ofBindings (p.tables slot)).seen s (p.addressed slot steps) ∧
      (p.after s steps).tables slot =
        ((Machine.ofBindings (p.tables slot)).after s (p.addressed slot steps)).bindings) ∧
    (∀ (p' : Pool) (steps' : List (String × String)) (slot : Slot),
      p'.tables slot = p.tables slot → p'.addressed slot steps' = p.addressed slot steps →
        p'.answers s slot steps' = p.answers s slot steps ∧
          (p'.after s steps').tables slot = (p.after s steps).tables slot) ∧
    ∀ steps', List.Forall₂ (fun step step' => p.slotOf step.1 = p.slotOf step'.1 ∧ step.2 = step'.2)
      steps steps' → p.run s steps' = p.run s steps := by
  refine ⟨length_run s steps p, fun slot => answers_eq_session s slot steps rfl,
    fun p' steps' slot htable hlines => ?_, fun steps' h => (run_congr rfl h).symm⟩
  -- both runs are compared with the same session
  have hm : (Machine.ofBindings (p.tables slot)).bindings = p.tables slot := rfl
  obtain ⟨hanswers, hafter⟩ := answers_eq_session s slot steps hm
  obtain ⟨hanswers', hafter'⟩ := answers_eq_session s slot steps' (hm.trans htable.symm)
  rw [hlines] at hanswers' hafter'
  exact ⟨hanswers'.trans hanswers.symm, hafter'.trans hafter.symm⟩

/-- Two interpreters that share a table. -/
def pair : Pool := (new.attach "a" (.shared "e")).attach "b" (.shared "e")

/-- A third interpreter cannot see the name that the two have bound, and what it binds itself they do
not see; one interpreter alone gets the same answers as the two. -/
theorem run_isolated_pair :
    (pair.answers .default (.shared "e")
        [("a", "x = 2"), ("c", "x"), ("b", "x + 1"), ("c", "x = 5"), ("a", "x")]).map Prod.fst =
      [.ok (.int 2), .ok (.int 3), .ok (.int 2)] ∧
    pair.run .default [("b", "x = 2"), ("c", "x"), ("a", "x + 1"), ("c", "x = 5"), ("b", "x")] =
      pair.run .default [("a", "x = 2"), ("c", "x"), ("b", "x + 1"), ("c", "x = 5"), ("a", "x")] := by
  obtain ⟨-, -, halone, hshared⟩ := run_isolated .default
    [("a", "x = 2"), ("c", "x"), ("b", "x + 1"), ("c", "x = 5"), ("a", "x")] pair
  constructor
  · have hanswers := (halone (new.attach "d" (.shared "e"))
      [("d", "x = 2"), ("d", "x + 1"), ("d", "x")] (.shared "e") rfl (by decide)).1
    rw [← hanswers]
    decide +kernel
  · refine hshared _ (.cons ⟨rfl, rfl⟩ (.cons ⟨rfl, rfl⟩ (.cons ⟨rfl, rfl⟩ ?_)))
    exact .cons ⟨rfl, rfl⟩ (.cons ⟨rfl, rfl⟩ .nil)

end Pool

end VectorCalc
