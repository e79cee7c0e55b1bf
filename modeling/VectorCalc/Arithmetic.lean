import VectorCalc.Arithmetic.Width
import VectorCalc.Fault
import VectorCalc.Operator

/-!
# Operators applied to values

A binary operator takes two integers, or two vectors of the same length item by item. A unary
operator leaves an integer as it is. Operands have to be words of the width in use; with 64 bits
every value is.
-/

namespace VectorCalc

/-- A value as an array of words, refused if one of its integers is no word of this width. -/
def Width.admit (w : Width) (v : Value) : Except Fault Unit :=
  if v.toList.all fun n => w.fits n.toInt then .ok ()
  else .error (.unsupported (.doesNotFit v w.bits))

namespace BinaryOp

/-- The operator on two words. -/
def combine (w : Width) : BinaryOp → Int64 → Int64 → Int64
  | .add, x, y => w.wrap (x.toInt + y.toInt)
  | .subtract, x, y => w.wrap (x.toInt - y.toInt)
  | .multiply, x, y => w.wrap (x.toInt * y.toInt)
  | .power, x, y => w.power x.toInt y.toInt
  | .minimum, x, y => if x ≤ y then x else y
  | .maximum, x, y => if x ≤ y then y else x

/-- The operator on two values, where `kernel` combines two words. -/
def applyWith (w : Width) (op : BinaryOp) (kernel : Int64 → Int64 → Int64) :
    Value → Value → Except Fault Value
  | .int x, .int y => do
    w.admit (.int x)
    w.admit (.int y)
    return .int (kernel x y)
  | .vector u, .vector v => do
    if u.length ≠ v.length then
      throw (.unsupported (.lengthMismatch op.symbol u.length v.length))
    w.admit (.vector u)
    w.admit (.vector v)
    return .vector (u.zipWith kernel v)
  | left, right => throw (.unsupported (.mixedOperands op.symbol left.kind right.kind))

/-- The operator on two data, of which each has to be a value. -/
def applyData (w : Width) (op : BinaryOp) (kernel : Int64 → Int64 → Int64) :
    Datum → Datum → Except Fault Value
  | .value left, .value right => op.applyWith w kernel left right
  | .foreign h, _ => .error (.misuse (.value h.kind))
  | .value _, .foreign h => .error (.misuse (.value h.kind))

/-- The operator on two values, as it combines two words itself. -/
def apply (w : Width) (op : BinaryOp) (left right : Value) : Except Fault Value :=
  op.applyWith w (op.combine w) left right

end BinaryOp

namespace UnaryOp

/-- The operator on the items of a vector. -/
def combine (w : Width) : UnaryOp → Items → Value
  | .sum, v => .int (v.fold (BinaryOp.add.combine w))
  | .sumScan, v => .vector (v.scan (BinaryOp.add.combine w))
  | .product, v => .int (v.fold (BinaryOp.multiply.combine w))
  | .productScan, v => .vector (v.scan (BinaryOp.multiply.combine w))

/-- A unary operator on a value, where `kernel` combines the items of a vector. -/
def applyWith (w : Width) (kernel : Items → Value) : Value → Except Fault Value
  | .int n => .ok (.int n)
  | .vector v => do
    w.admit (.vector v)
    return kernel v

/-- The operator on a datum, which has to be a value. -/
def applyDatum (w : Width) (op : UnaryOp) (kernel : Items → Value) : Datum → Except Fault Value
  | .value v => applyWith w kernel v
  | .foreign h => .error (.unsupported (.operandKind op.symbol h.kind))

/-- The operator on a value, as it combines the items of a vector itself. -/
def apply (w : Width) (op : UnaryOp) (v : Value) : Except Fault Value :=
  applyWith w (op.combine w) v

end UnaryOp

/-! ## Kernels -/

namespace Operator

/-- What combines words for an operator: two words, or the items of a vector. -/
def Kernel : Operator → Type
  | .binary _ => Width → Int64 → Int64 → Int64
  | .unary _ => Width → Items → Value

/-- How an operator itself combines words. -/
def kernel : (op : Operator) → op.Kernel
  | .binary op => fun w => op.combine w
  | .unary op => fun w => op.combine w

end Operator

end VectorCalc
