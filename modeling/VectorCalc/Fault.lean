import VectorCalc.Host
import VectorCalc.Text.Integer
import VectorCalc.Text.Utf8

/-!
# Faults

Everything that can go wrong, as causes. A fault of one of six categories is *reported*: the shell
prints its message and goes on with the next line. All other faults escape from the shell; they
come from a host that breaks the contract of a call, from input that is no text, or from a number
with too many digits.
-/

namespace VectorCalc

/-- The part of a line from `start` up to but not including `stop`, counted in characters. -/
structure Span where
  start : Int
  stop : Int
deriving DecidableEq

/-- A span as messages show it. -/
def Span.text (s : Span) : String :=
  "at span [" ++ toString s.start ++ ", " ++ toString s.stop ++ ")"

/-! ## Causes -/

/-- Why a line cannot be read. -/
inductive Problem where
  | emptyLine
  | unexpectedToken
  | targetNotIdentifier
  | assignedValueMissing
  | termMissing
  | danglingMinus
  | unknownOperator (symbol : String)
  | numberOutOfRange
  /-- A step back was refused by a cursor that keeps `capacity` tokens, `pending` of which were
  already to be read again. -/
  | retractionExhausted (capacity pending : Nat)
  /-- A problem worded by the host. -/
  | stated (text : String)
deriving DecidableEq

/-- The words for a problem. -/
def Problem.text : Problem → String
  | .emptyLine => "Empty line"
  | .unexpectedToken => "Unexpected token"
  | .targetNotIdentifier => "Assignment target must be an identifier"
  | .assignedValueMissing => "Assignment value must be a number or a variable"
  | .termMissing => "Expected a term"
  | .danglingMinus => "Dangling minus"
  | .unknownOperator symbol => "Unknown operator " ++ Text.quoted symbol
  | .numberOutOfRange => "Number literal out of range"
  | .retractionExhausted capacity _ =>
    "Retraction buffer exhausted (capacity " ++ toString capacity ++ ")"
  | .stated text => text

/-- Why an operation does not apply to its operands. -/
inductive Unsupported where
  | unknownUnary (symbol : String)
  | unknownBinary (symbol : String)
  | lengthMismatch (symbol : String) (left right : Nat)
  | mixedOperands (symbol : String) (left right : Value.Kind)
  | operandKind (symbol kind : String)
  | doesNotFit (value : Value) (bits : Nat)
  | rank (n : Nat)
  /-- A cause worded by the host. -/
  | stated (text : String)
deriving DecidableEq

/-- The words for an unsupported operation. -/
def Unsupported.text : Unsupported → String
  | .unknownUnary symbol => "Unknown unary operator " ++ Text.quoted symbol
  | .unknownBinary symbol => "Unknown binary operator " ++ Text.quoted symbol
  | .lengthMismatch symbol left right =>
    "Length mismatch for " ++ Text.quoted symbol ++ ": " ++ toString left ++ " and " ++ toString right
  | .mixedOperands symbol left right =>
    "Operator " ++ Text.quoted symbol ++ " does not support " ++ left.text ++ " and " ++ right.text ++
      " operands"
  | .operandKind symbol kind =>
    "Operator " ++ Text.quoted symbol ++ " does not support " ++ kind ++ " operands"
  | .doesNotFit value bits => "Value " ++ value.raw ++ " does not fit in int" ++ toString bits
  | .rank n => "Result of rank " ++ toString n ++ " cannot be represented"
  | .stated text => text

/-- How a host has offered the wrong type of datum; `kind` names the type that it offered. -/
inductive Misuse where
  | name (offered : Host)
  | incomparable (kind : String)
  | value (kind : String)
  | valueAt (place kind : String)
  | node (kind : String)
  | integer (kind : String)
  | item (index : Nat) (kind : String)
  | line (kind : String)
  | prompt (kind : String)
  | level (kind : String)
deriving DecidableEq

/-- The words for a misuse. -/
def Misuse.text : Misuse → String
  | .name offered => "Environment names must be non-empty strings, got " ++ offered.shown
  | .incomparable kind => "unhashable type: '" ++ kind ++ "'"
  | .value kind => "unsupported runtime type " ++ kind
  | .valueAt place kind => place ++ " has unsupported runtime type " ++ kind
  | .node kind => "Unsupported expression node " ++ kind
  | .integer kind => "Int requires a Python int, got " ++ kind
  | .item index kind => "Vector item " ++ toString index ++ " must be Int, got " ++ kind
  | .line kind => "'" ++ kind ++ "' object has no attribute 'rstrip'"
  | .prompt kind => "string argument expected, got '" ++ kind ++ "'"
  | .level kind => "attribute name must be string, not '" ++ kind ++ "'"

/-- How data of the right type lies outside its domain. -/
inductive OutOfDomain where
  | capacity
  | capacityTooLarge
  | emptyVector
  | integer (n : Int)
  | digits (count : Nat)
  | integerText (text : String)
  /-- A path that holds the character with code 0. -/
  | path
deriving DecidableEq

/-- The most characters of a quoted setting that a message shows. -/
def shownSettingLimit : Nat := 200

/-- The words for data outside its domain. -/
def OutOfDomain.text : OutOfDomain → String
  | .capacity => "TokenCursor capacity must be at least 1"
  | .capacityTooLarge => "Python int too large to convert to C ssize_t"
  | .emptyVector => "Vector must contain at least one item"
  | .integer n => "Int value " ++ toString n ++ " is outside the signed 64-bit range"
  | .digits count =>
    "Exceeds the limit (" ++ toString Text.digitLimit ++
      " digits) for integer string conversion: value has " ++ toString count ++
      " digits; use sys.set_int_max_str_digits() to increase the limit"
  | .integerText text =>
    "invalid literal for int() with base 10: " ++
      String.ofList ((Text.quoted text).toList.take shownSettingLimit)
  | .path => "embedded null byte"

/-! ## Faults -/

/-- Whatever can go wrong. -/
inductive Fault where
  /-- A character that belongs to no token. -/
  | illegalCharacter (char : String) (span : Span)
  /-- A line that is no assignment and no chain. -/
  | malformed (problem : Problem) (span : Span) (expected : List String) (found : Option String)
  /-- A name without a binding. -/
  | undefined (name : Host)
  | unsupported (cause : Unsupported)
  /-- A failure after reading, worded by the host. -/
  | runtime (text : String)
  /-- Any other failure, worded by the host. -/
  | general (text : String)
  | misuse (cause : Misuse)
  | outOfDomain (cause : OutOfDomain)
  /-- A name that was to be read or removed from a table; `none` if the table was empty. -/
  | missing (name : Option Host)
  | undecodable (cause : Text.Utf8.Fault)
deriving DecidableEq

namespace Fault

/-- The message of a fault without its place. -/
def bareText : Fault → String
  | .illegalCharacter char _ => "Unexpected character " ++ Text.quoted char
  | .malformed problem _ _ _ => problem.text
  | .undefined name => "Undefined variable " ++ name.shown
  | .unsupported cause => cause.text
  | .runtime text => text
  | .general text => text
  | .misuse cause => cause.text
  | .outOfDomain cause => cause.text
  | .missing none => ""
  | .missing (some name) => name.shown
  | .undecodable cause => cause.message

/-- The whole message: the bare text, the span, what was expected there and what was found. -/
def message : Fault → String
  | .illegalCharacter char span =>
    (Fault.illegalCharacter char span).bareText ++ " " ++ span.text
  | .malformed problem span expected found =>
    problem.text ++ " " ++ span.text ++
      (if expected.isEmpty then "" else "; expected " ++ ", ".intercalate expected) ++
      (match found with
        | none => ""
        | some token => "; found " ++ token)
  | fault => fault.bareText

/-! ## Categories -/

/-- The categories of reported faults. -/
inductive Category where
  | general
  | lexical
  | parse
  | runtime
  | undefined
  | unsupported
deriving DecidableEq

/-- The name of a category in the log. -/
def Category.label : Category → String
  | .general => "AplError"
  | .lexical => "LexError"
  | .parse => "ParseError"
  | .runtime => "AplRuntimeError"
  | .undefined => "UndefinedVariableError"
  | .unsupported => "UnsupportedOperationError"

/-- A category and those that contain it, the narrowest first. -/
def Category.lineage : Category → List Category
  | .general => [.general]
  | .lexical => [.lexical, .general]
  | .parse => [.parse, .general]
  | .runtime => [.runtime, .general]
  | .undefined => [.undefined, .runtime, .general]
  | .unsupported => [.unsupported, .runtime, .general]

/-- The category of a reported fault. -/
def category? : Fault → Option Category
  | .illegalCharacter _ _ => some .lexical
  | .malformed _ _ _ _ => some .parse
  | .undefined _ => some .undefined
  | .unsupported _ => some .unsupported
  | .runtime _ => some .runtime
  | .general _ => some .general
  | .misuse _ | .outOfDomain _ | .missing _ | .undecodable _ => none

/-- The shell prints the fault and goes on. -/
def isReported (f : Fault) : Bool := f.category?.isSome

end Fault

end VectorCalc
