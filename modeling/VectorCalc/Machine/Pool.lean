import VectorCalc.Machine.Evaluate

/-!
# Several interpreters

A host may run interpreters side by side, each attached to a table of bindings. Interpreters that are
attached to one table see each other's bindings; an interpreter that is attached to none gets a table
of its own. Prepared operators and the log are common to all interpreters.
-/

namespace VectorCalc

/-- A table of bindings: one that the host has named, or the own one of an interpreter. -/
inductive Slot where
  | shared (name : String)
  | own (interpreter : String)
deriving DecidableEq

/-- The tables that interpreters use, the slot that each interpreter is attached to, and what all of
them have in common. -/
structure Pool where
  slotOf : String → Slot
  tables : Slot → Bindings
  /-- The operators that some interpreter has prepared. -/
  prepared : Kernels
  /-- The log, the last record first. -/
  log : List Record

namespace Pool

/-- The pool in which nothing is shared and nothing is bound. -/
def new : Pool := ⟨.own, fun _ => .empty, .empty, []⟩

/-- Replace the table in a slot. -/
def setTable (p : Pool) (slot : Slot) (b : Bindings) : Pool :=
  { p with tables := fun other => if other = slot then b else p.tables other }

/-- Attach an interpreter to a slot. -/
def attach (p : Pool) (interpreter : String) (slot : Slot) : Pool :=
  { p with slotOf := fun other => if other = interpreter then slot else p.slotOf other }

/-- The table that an interpreter uses. -/
def bindingsOf (p : Pool) (interpreter : String) : Bindings := p.tables (p.slotOf interpreter)

/-- The machine on which an interpreter evaluates its next line. -/
def machineOf (p : Pool) (interpreter : String) : Machine :=
  ⟨p.bindingsOf interpreter, p.prepared, p.log⟩

/-- Evaluate a line in one of the interpreters. -/
def step (s : Settings) (interpreter line : String) (p : Pool) : Except Fault Value × Pool :=
  let (outcome, m) := (p.machineOf interpreter).evaluateLine s line
  (outcome,
    { p.setTable (p.slotOf interpreter) m.bindings with prepared := m.prepared, log := m.log })

/-- Evaluate lines in the interpreters that they are addressed to, one after the other. -/
def run (s : Settings) : List (String × String) → Pool → List (Except Fault Value × Pool)
  | [], _ => []
  | (interpreter, line) :: rest, p =>
    let outcome := p.step s interpreter line
    outcome :: run s rest outcome.2

end Pool

end VectorCalc
