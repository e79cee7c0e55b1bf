import VectorCalc.Bindings.Edit
import VectorCalc.Machine.Kernels
import VectorCalc.Settings

/-!
# The machine that evaluates lines

From line to line a machine carries its bindings, the operators that it has prepared so far with their
kernels, and the log. A computation runs on the machine and may end in a fault; what it did before the fault stays
done.
-/

namespace VectorCalc

/-! ## The log -/

/-- What the log tells. -/
inductive Record where
  | bound (name : String) (v : Value)
  | preparing (op : Operator)
  | retractionRefused (pending capacity : Nat)
  | lineFailed (line : String) (category : Fault.Category)
deriving DecidableEq

/-- A record as it is written, with the part of the program that it comes from. -/
def Record.text : Record → String
  | .bound name v => "apl_jax.environment: bound " ++ name ++ " = " ++ v.text
  | .preparing (.binary op) => "apl_jax.operations: jitting binary kernel " ++ Text.quoted op.symbol
  | .preparing (.unary op) => "apl_jax.operations: jitting unary kernel " ++ Text.quoted op.symbol
  | .retractionRefused pending capacity =>
    "apl_jax.cursor: retraction refused: " ++ toString pending ++ " of " ++ toString capacity ++
      " tokens pending"
  | .lineFailed line category =>
    "apl_jax.repl: line " ++ Text.quoted line ++ " failed: " ++ category.label

/-! ## Machines -/

/-- What is carried from line to line. -/
structure Machine where
  bindings : Bindings
  /-- The operators prepared so far. -/
  prepared : Kernels
  /-- The log, the last record first. -/
  log : List Record
deriving DecidableEq

namespace Machine

/-- A machine that has done nothing yet. -/
def ofBindings (b : Bindings) : Machine := ⟨b, .empty, []⟩

/-- A machine without bindings. -/
def new : Machine := ofBindings .empty

instance : Inhabited Machine := ⟨new⟩

/-- The log, the first record first. -/
def records (m : Machine) : List Record := m.log.reverse

/-- Write a record. -/
def note (r : Record) (m : Machine) : Machine := { m with log := r :: m.log }

/-- Keep the kernel of an operator, and say so. -/
def keepKernel (op : Operator) (m : Machine) : Machine :=
  { m with prepared := m.prepared.add op, log := .preparing op :: m.log }

end Machine

/-- A computation on a machine. The machine is kept when a fault arises. -/
abbrev Run := ExceptT Fault (StateM Machine)

namespace Run

/-- An outcome that is known without the machine. -/
def lift {α : Type} (outcome : Except Fault α) : Run α := fun m => (outcome, m)

/-- A change of the machine. -/
def update (f : Machine → Machine) : Run Unit := fun m => (.ok (), f m)

/-- The value of a name. -/
def lookup (name : String) : Run Datum := fun m =>
  ((m.bindings.lookup (.text name)).map .value, m)

/-- Bind a name and pass the datum on. -/
def assign (name : String) (d : Datum) : Run Datum := do
  let m ← get
  let b ← lift (m.bindings.bind (.text name) d)
  set { m with bindings := b }
  if let .value v := d then update (.note (.bound name v))
  return d

/-- The kernel with which an operator is applied. If kernels are kept, it is the one that was kept for
the operator, or its own one, which is kept from now on. -/
def kernel (s : Settings) (op : Operator) : Run op.Kernel := do
  if s.prepares then
    match (← get).prepared.find? op with
    | some f => return f
    | none =>
      update (.keepKernel op)
      return op.kernel
  else return op.kernel

/-- Apply a binary operator, by its symbol. The symbol is looked at before the operands. -/
def binary (s : Settings) (symbol : String) (left right : Datum) : Run Value :=
  match BinaryOp.ofSymbol? symbol with
  | none => throw (.unsupported (.unknownBinary symbol))
  | some op => do
    let f ← kernel s (.binary op)
    lift (op.applyData s.width (f s.width) left right)

/-- Apply a unary operator, by its symbol. The symbol is looked at before the operand. -/
def unary (s : Settings) (symbol : String) (operand : Datum) : Run Value :=
  match UnaryOp.ofSymbol? symbol with
  | none => throw (.unsupported (.unknownUnary symbol))
  | some op => do
    let f ← kernel s (.unary op)
    lift (op.applyDatum s.width (f s.width) operand)

end Run

end VectorCalc
