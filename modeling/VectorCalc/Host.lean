import VectorCalc.Text.Quoted
import VectorCalc.Value

/-!
# Data of the host program

A host program that embeds the calculator hands it data of its own: it may name a binding by
something that is no text, or offer something that is no value. Such data is never computed with;
messages name its type, and show it where it was meant as a name.
-/

namespace VectorCalc

/-- A datum of the host program that is not one of the calculator's values. -/
inductive Host where
  | null
  | truth (b : Bool)
  | number (n : Int)
  | decimal (digits : String)
  | text (s : String)
  /-- A list, kept as its written form. -/
  | list (shown : String)
  /-- A table of named entries, kept as its written form. -/
  | table (shown : String)
deriving DecidableEq

namespace Host

/-- The name of a datum's type in messages. -/
def kind : Host → String
  | .null => "NoneType"
  | .truth _ => "bool"
  | .number _ => "int"
  | .decimal _ => "float"
  | .text _ => "str"
  | .list _ => "list"
  | .table _ => "dict"

/-- A datum as messages show it, text in quotes. -/
def shown : Host → String
  | .null => "None"
  | .truth true => "True"
  | .truth false => "False"
  | .number n => toString n
  | .decimal d => d
  | .text s => Text.quoted s
  | .list s => s
  | .table s => s

/-- The list of the given members. -/
def ofList (xs : List Host) : Host := .list ("[" ++ ", ".intercalate (xs.map shown) ++ "]")

/-- The table of the given entries. -/
def ofEntries (es : List (String × Host)) : Host :=
  .table ("\x7b" ++ ", ".intercalate (es.map fun e => Text.quoted e.1 ++ ": " ++ e.2.shown) ++ "\x7d")

/-- A list or a table cannot be looked up as a name; everything else can, even if it is no text. -/
def isComparable : Host → Bool
  | .list _ => false
  | .table _ => false
  | _ => true

end Host

/-- What may stand where a value is expected: a value, or a datum of the host. -/
inductive Datum where
  | value (v : Value)
  | foreign (h : Host)
deriving DecidableEq

/-- The name of a datum's type in messages. -/
def Datum.kind : Datum → String
  | .value (.int _) => "Int"
  | .value (.vector _) => "Vector"
  | .foreign h => h.kind

end VectorCalc
