import VectorCalc.Token.Source

/-!
# Tapes

A tape holds all tokens of a line and grants every step back. It is what a cursor looks like as long
as no step back is refused.
-/

namespace VectorCalc.Token

/-- A reader that keeps everything: the tokens behind it, the last one first, the tokens before it,
and the end token with which it goes on. -/
structure Tape where
  behind : List Token
  before : List Token
  final : Token
deriving DecidableEq

namespace Tape

/-- The tape of a line. -/
def ofText (source : String) : Tape := ⟨[], tokenize source, eof source.length⟩

/-- The next token, which is the end token once all others have been read. -/
def next (t : Tape) : Token × Tape :=
  match t.before with
  | [] => (t.final, { t with behind := t.final :: t.behind })
  | token :: before => (token, { t with behind := token :: t.behind, before })

/-- One step back; at the beginning there is nothing to step back to. -/
def retract (t : Tape) : Tape :=
  match t.behind with
  | [] => t
  | token :: behind => { t with behind, before := token :: t.before }

/-- The tokens that come before the end token. -/
def ahead (t : Tape) : Nat := t.before.length

instance : Source Tape := ⟨next, fun t => .ok t.retract, ahead⟩

end Tape

end VectorCalc.Token
