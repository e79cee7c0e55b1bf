import VectorCalc.Host

/-!
# Expressions

What a line says: a value, a name, an assignment, or an operator with its operands. A host may build
trees that no line denotes: operators of its own, literals that are no values, and nodes that are no
expressions. They are kept as they are and fail when they are evaluated.
-/

namespace VectorCalc

/-- An expression tree. Operators are kept as they are written. -/
inductive Expr where
  | literal (datum : Datum)
  | ref (name : String)
  | assign (name : String) (value : Expr)
  | unary (symbol : String) (operand : Expr)
  | binary (symbol : String) (left right : Expr)
  /-- A node that is no expression; `kind` names what it is. -/
  | foreign (kind : String)
deriving DecidableEq

end VectorCalc
