import VectorCalc.Bindings

/-!
# Editing bindings by a host

A host reads and edits the table with data of its own as names and values. What is no name and what
is no value is refused before anything changes, so a refused edit leaves the table as it was; only a
batch of bindings keeps the part before the first one refused.
-/

namespace VectorCalc.Bindings

/-! ## Reading -/

/-- The value under a datum used as a name. Nothing but texts is ever bound, and lists and tables
cannot even be looked for. -/
def find (b : Bindings) : Host → Except Fault (Option Value)
  | .text name => .ok (b.get? name)
  | h => if h.isComparable then .ok none else .error (.misuse (.incomparable h.kind))

/-- The value of a name that a line refers to. -/
def lookup (b : Bindings) (name : Host) : Except Fault Value := do
  match ← b.find name with
  | some v => return v
  | none => throw (.undefined name)

/-- The value of a name that has to be in the table. -/
def fetch (b : Bindings) (name : Host) : Except Fault Value := do
  match ← b.find name with
  | some v => return v
  | none => throw (.missing (some name))

/-- The value of a name, or the given datum if it is not bound. -/
def fetchD (b : Bindings) (name : Host) (default : Datum) : Except Fault Datum := do
  match ← b.find name with
  | some v => return .value v
  | none => return default

/-! ## Binding -/

/-- Bind a name: it has to be a text that is not empty, and the datum a value. -/
def bind (b : Bindings) (name : Host) (d : Datum) : Except Fault Bindings :=
  match name with
  | .text s =>
    if h : s = "" then .error (.misuse (.name name))
    else do
      let v ← d.expect ("env[" ++ name.shown ++ "]")
      return b.insert s h v
  | _ => .error (.misuse (.name name))

/-- Bind names in order, up to the first that is refused. -/
def bindAll : List (Host × Datum) → Bindings → Except Fault Unit × Bindings
  | [], b => (.ok (), b)
  | (name, d) :: rest, b =>
    match b.bind name d with
    | .ok b => bindAll rest b
    | .error f => (.error f, b)

/-- A new table with the given bindings. Of two for one name the later one counts, in the place of
the earlier one. -/
def ofList (pairs : List (Host × Datum)) : Except Fault Bindings :=
  match bindAll (pairs.foldl (fun es p => put p.1 p.2 es) []) empty with
  | (.ok (), b) => .ok b
  | (.error f, _) => .error f

/-! ## Edits -/

/-- A change that a host asks for. -/
inductive Edit where
  | set (name : Host) (d : Datum)
  /-- Like `set`, with the value as the reply. -/
  | assign (name : Host) (d : Datum)
  | delete (name : Host)
  /-- Remove a name and reply its value, or the default if there is one and the name is not bound. -/
  | pop (name : Host) (default : Option Datum)
  | popOldest
  /-- Reply the value of a name, binding it to the datum first if it has none. -/
  | setDefault (name : Host) (d : Datum)
  | update (pairs : List (Host × Datum))
  | clear

/-- What a host is told. -/
inductive Reply where
  | done
  | datum (d : Datum)
  | entry (name : String) (v : Value)
deriving DecidableEq

/-- A reply together with the table after an edit. -/
abbrev Edited := Except Fault Reply × Bindings

/-- The table without a bound name, and its value. -/
def remove (b : Bindings) (name : Host) : Except Fault (Value × Bindings) := do
  let v ← b.fetch name
  match name with
  | .text s => return (v, b.erase s)
  | _ => return (v, b)

/-- The outcome of a change: on a fault the table stays as it was. -/
def orKeep (b : Bindings) : Except Fault (Reply × Bindings) → Edited
  | .ok (reply, b) => (.ok reply, b)
  | .error f => (.error f, b)

/-- Carry out an edit. -/
def Edit.run (b : Bindings) : Edit → Edited
  | .set name d => b.orKeep do return (.done, ← b.bind name d)
  | .assign name d => b.orKeep do return (.datum d, ← b.bind name d)
  | .delete name => b.orKeep do return (.done, (← b.remove name).2)
  | .pop name none => b.orKeep do
    let (v, b) ← b.remove name
    return (.datum (.value v), b)
  | .pop name (some d) => b.orKeep do
    match ← b.find name with
    | none => return (.datum d, b)
    | some _ =>
      let (v, b) ← b.remove name
      return (.datum (.value v), b)
  | .popOldest =>
    match b.entries with
    | [] => (.error (.missing none), b)
    | (name, v) :: _ => (.ok (.entry name v), b.erase name)
  | .setDefault name d => b.orKeep do
    match ← b.find name with
    | some v => return (.datum (.value v), b)
    | none => return (.datum d, ← b.bind name d)
  | .update pairs =>
    let (outcome, b) := bindAll pairs b
    (outcome.map fun _ => .done, b)
  | .clear => (.ok .done, empty)

end VectorCalc.Bindings
