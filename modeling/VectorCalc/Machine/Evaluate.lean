import VectorCalc.Expr.Parse
import VectorCalc.Machine
import VectorCalc.Token.Cursor

/-!
# Evaluating expressions and lines

Operands are evaluated from left to right, and the value of an assignment before its name is bound.
An operator that does not exist is refused before its operands are evaluated. A line is parsed as a
whole before any of it is evaluated, so a line that cannot be parsed changes no binding.
-/

namespace VectorCalc

/-- Evaluate an expression. A host's literal that is no value evaluates to itself. -/
def Expr.evaluate (s : Settings) : Expr → Run Datum
  | .literal d => return d
  | .ref name => Run.lookup name
  | .assign name value => do
    let d ← evaluate s value
    Run.assign name d
  | .unary symbol operand =>
    match UnaryOp.ofSymbol? symbol with
    | none => throw (.unsupported (.unknownUnary symbol))
    | some _ => do
      let d ← evaluate s operand
      return .value (← Run.unary s symbol d)
  | .binary symbol left right =>
    match BinaryOp.ofSymbol? symbol with
    | none => throw (.unsupported (.unknownBinary symbol))
    | some _ => do
      let l ← evaluate s left
      let r ← evaluate s right
      return .value (← Run.binary s symbol l r)
  | .foreign kind => throw (.misuse (.node kind))

/-- The expression that a line denotes where the given names are bound. -/
def Expr.parse (s : Settings) (b : Bindings) (source : String) : Except Fault Expr := do
  let c ← Token.Cursor.ofText? source s.capacity
  (Expr.parseFrom b.contains c).1

/-- What the log tells about a line that cannot be parsed. -/
def Record.ofParseFault : Fault → Option Record
  | .malformed (.retractionExhausted capacity pending) _ _ _ =>
    some (.retractionRefused pending capacity)
  | _ => none

namespace Run

/-- Parse a line. -/
def parse (s : Settings) (source : String) : Run Expr := do
  let m ← get
  match Expr.parse s m.bindings source with
  | .ok e => return e
  | .error f =>
    if let some r := Record.ofParseFault f then update (.note r)
    throw f

/-- Evaluate a line. -/
def line (s : Settings) (source : String) : Run Value := do
  let e ← parse s source
  let d ← e.evaluate s
  lift (d.expect "line result")

end Run

/-- The outcome of a line, and the machine after it. -/
def Machine.evaluateLine (s : Settings) (source : String) (m : Machine) :
    Except Fault Value × Machine := (Run.line s source).run m

/-- The outcomes of lines that are evaluated one after the other, with the machine after each. -/
def Machine.session (s : Settings) : List String → Machine → List (Except Fault Value × Machine)
  | [], _ => []
  | l :: ls, m =>
    let step := m.evaluateLine s l
    step :: session s ls step.2

end VectorCalc
