import VectorCalc.Expr
import VectorCalc.Operator
import VectorCalc.Text.Integer
import VectorCalc.Token.Source

/-!
# Parsing a line

A line is an assignment or a chain, and ends where it is complete. In the grammar below a single
space may stand between any two parts, except between a minus sign and the digits it belongs to:

  line    ::=  IDENTIFIER "=" (signed | IDENTIFIER)  |  chain
  chain   ::=  term  |  chain BINARY term  |  chain UNARY
  term    ::=  vector  |  IDENTIFIER  |  UNARY term
  vector  ::=  signed signed ...
  signed  ::=  NUMBER  |  "-" NUMBER

All binary operators have the same precedence and group to the left. A unary operator before a term
takes that term, one after a chain takes the whole chain. A vector takes as many numbers as it can
get, so a minus sign with a digit right behind it is a sign, and any other minus is an operator. A
vector of one number is that number.

The parser only ever asks which names are bound. Its loops carry a bound on the tokens that are left;
`parseFrom` supplies it from the source, and there are never more steps than tokens.
-/

namespace VectorCalc.Expr

namespace Parse

open Token (Source Reader)

/-! ## Faults at a token -/

/-- A token as messages show it. -/
def shownToken (token : Token) : String :=
  if token.kind = .eof then token.kind.name else token.kind.name ++ "(" ++ token.text ++ ")"

/-- The span of a token. -/
def spanOf (token : Token) : Span := ⟨token.start, token.stop⟩

/-- The fault of a problem at a token. An illegal character is always reported as such. -/
def faultAt (token : Token) (problem : Problem) (expected : List String) : Fault :=
  if token.kind = .illegal then .illegalCharacter token.text (spanOf token)
  else .malformed problem (spanOf token) expected (some (shownToken token))

/-- What a term may begin with. -/
def termStart : List String := ["NUMBER", "IDENTIFIER", "-", "*/", "*\\", "+/", "+\\"]

/-! ## Numbers -/

/-- No number of more significant digits fits into 64 bits. -/
def significantLimit : Nat := 19

/-- The number that a token denotes, negated if a sign belongs to it. A number out of range is
refused by its length where that suffices, before it is computed. -/
def number (negative : Bool) (token : Token) : Except Fault Int64 :=
  let digits := token.text.toList
  if significantLimit < (digits.dropWhile (· = '0')).length then
    .error (faultAt token .numberOutOfRange [])
  else if Text.digitLimit < digits.length then
    .error (.outOfDomain (.digits digits.length))
  else
    let size : Int := Nat.ofDigitChars 10 digits 0
    let n := if negative then -size else size
    if fitsWord n then .ok (Int64.ofInt n) else .error (faultAt token .numberOutOfRange [])

/-- The literal of one number or of a vector of several. -/
def ofNumbers (n : Int64) : List Int64 → Expr
  | [] => .literal (.value (.int n))
  | ns => .literal (.value (.vector ⟨n :: ns, List.cons_ne_nil _ _⟩))

/-! ## Parts of a line -/

section

variable {σ : Type} [Source σ]

/-- Report a problem at a token. -/
def fail {α : Type} (token : Token) (problem : Problem) (expected : List String) : Reader σ α :=
  throw (faultAt token problem expected)

/-- A minus sign or operator. -/
def isMinus (token : Token) : Bool := token.kind = .operator && token.text = "-"

/-- A reference to a bound name. -/
def variableOf (bound : String → Bool) (token : Token) : Reader σ Expr :=
  if bound token.text then return .ref token.text else throw (.undefined (.text token.text))

/-- The number behind a minus sign, with no space between. -/
def negativeNumber : Reader σ Int64 := do
  let token ← Reader.next
  if token.kind = .number then number true token
  else fail token .danglingMinus ["NUMBER"]

/-- The further numbers of a vector. A minus sign that belongs to no number is left unread. -/
def numbers : Nat → Reader σ (List Int64)
  | 0 => return []
  | fuel + 1 => do
    let token ← Reader.nextWord
    if token.kind = .number then
      let n ← number false token
      return n :: (← numbers fuel)
    else if isMinus token then
      let adjacent ← Reader.next
      if adjacent.kind = .number then
        let n ← number true adjacent
        return n :: (← numbers fuel)
      else
        Reader.retract
        Reader.retract
        return []
    else
      Reader.retract
      return []

/-- The term that begins with the given token. -/
def term (bound : String → Bool) : Nat → Token → Reader σ Expr
  | 0, token => fail token .termMissing termStart
  | fuel + 1, token =>
    match token.kind with
    | .number => do
      let n ← number false token
      return ofNumbers n (← numbers fuel)
    | .identifier => variableOf bound token
    | .operator =>
      if token.text = "-" then do
        let n ← negativeNumber
        return ofNumbers n (← numbers fuel)
      else if (UnaryOp.ofSymbol? token.text).isSome then do
        return .unary token.text (← term bound fuel (← Reader.nextWord))
      else fail token .termMissing termStart
    | _ => fail token .termMissing termStart

/-- The rest of a chain of which `left` has been read. The token that ends it is left unread. -/
def chain (bound : String → Bool) : Nat → Expr → Reader σ Expr
  | 0, left => return left
  | fuel + 1, left => do
    let token ← Reader.nextWord
    if token.kind ≠ .operator then
      Reader.retract
      return left
    else if (UnaryOp.ofSymbol? token.text).isSome then
      chain bound fuel (.unary token.text left)
    else if (BinaryOp.ofSymbol? token.text).isSome then
      let right ← term bound fuel (← Reader.nextWord)
      chain bound fuel (.binary token.text left right)
    else fail token (.unknownOperator token.text) []

/-- Nothing but a space may follow. -/
def expectEnd : Reader σ Unit := do
  let token ← Reader.nextWord
  if token.kind = .eof then return ()
  else if token.kind = .assign then fail token .targetNotIdentifier []
  else fail token .unexpectedToken ["OPERATOR", "EOF"]

/-- What is assigned: a number or a bound name. -/
def assignedValue (bound : String → Bool) : Reader σ Expr := do
  let token ← Reader.nextWord
  if token.kind = .identifier then variableOf bound token
  else if token.kind = .number then return ofNumbers (← number false token) []
  else if isMinus token then return ofNumbers (← negativeNumber) []
  else fail token .assignedValueMissing ["NUMBER", "IDENTIFIER"]

/-- A whole line. The first token tells a term, unless it is an identifier with an assignment sign
behind it. -/
def line (bound : String → Bool) (fuel : Nat) : Reader σ Expr := do
  let token ← Reader.nextWord
  if token.kind = .eof then fail token .emptyLine []
  else if token.kind = .identifier then
    let follow ← Reader.nextWord
    if follow.kind = .assign then
      let value ← assignedValue bound
      expectEnd
      return .assign token.text value
    else
      Reader.retract
      let e ← chain bound fuel (← variableOf bound token)
      expectEnd
      return e
  else
    let e ← chain bound fuel (← term bound fuel token)
    expectEnd
    return e

end

end Parse

/-! ## Parsing -/

/-- The expression that the tokens of a source denote, and the source behind them. -/
def parseFrom {σ : Type} [Token.Source σ] (bound : String → Bool) (source : σ) :
    Except Fault Expr × σ :=
  Parse.line bound (Token.Source.ahead source + 1) source

end VectorCalc.Expr
