/-!
# Operators

Binary operators stand between two operands. Unary operators combine the items of a vector into one
integer (reduce) or into the vector of what has been combined so far (scan).
-/

namespace VectorCalc

/-- The operators between two operands. -/
inductive BinaryOp where
  | add
  | subtract
  | multiply
  | power
  | minimum
  | maximum
deriving DecidableEq

namespace BinaryOp

/-- How an operator is written. -/
def symbol : BinaryOp → String
  | .add => "+"
  | .subtract => "-"
  | .multiply => "*"
  | .power => "**"
  | .minimum => "min"
  | .maximum => "max"

/-- The operator that is written so. -/
def ofSymbol? : String → Option BinaryOp
  | "+" => some .add
  | "-" => some .subtract
  | "*" => some .multiply
  | "**" => some .power
  | "min" => some .minimum
  | "max" => some .maximum
  | _ => none

@[simp] theorem ofSymbol?_symbol (op : BinaryOp) : ofSymbol? op.symbol = some op := by
  cases op <;> rfl

/-- An operator is found under its own symbol and under no other. -/
theorem ofSymbol?_eq_some_iff {s : String} {op : BinaryOp} :
    ofSymbol? s = some op ↔ s = op.symbol := by
  refine ⟨fun h => ?_, fun h => h ▸ ofSymbol?_symbol op⟩
  unfold ofSymbol? at h
  split at h <;> cases h <;> rfl

end BinaryOp

/-- The operators on the items of a vector. -/
inductive UnaryOp where
  | sum
  | sumScan
  | product
  | productScan
deriving DecidableEq

namespace UnaryOp

/-- How an operator is written. -/
def symbol : UnaryOp → String
  | .sum => "+/"
  | .sumScan => "+\\"
  | .product => "*/"
  | .productScan => "*\\"

/-- The operator that is written so. -/
def ofSymbol? : String → Option UnaryOp
  | "+/" => some .sum
  | "+\\" => some .sumScan
  | "*/" => some .product
  | "*\\" => some .productScan
  | _ => none

@[simp] theorem ofSymbol?_symbol (op : UnaryOp) : ofSymbol? op.symbol = some op := by
  cases op <;> rfl

/-- An operator is found under its own symbol and under no other. -/
theorem ofSymbol?_eq_some_iff {s : String} {op : UnaryOp} :
    ofSymbol? s = some op ↔ s = op.symbol := by
  refine ⟨fun h => ?_, fun h => h ▸ ofSymbol?_symbol op⟩
  unfold ofSymbol? at h
  split at h <;> cases h <;> rfl

end UnaryOp

/-- An operator of either sort. -/
inductive Operator where
  | binary (op : BinaryOp)
  | unary (op : UnaryOp)
deriving DecidableEq

end VectorCalc
