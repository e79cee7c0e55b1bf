import VectorCalc.Fault

/-!
# Values offered by a host

A host builds values from data of its own. Integers must be whole numbers within 64 bits, vectors
must have an item, and an array is a value only if it is a single number or a flat list of numbers.
-/

namespace VectorCalc

/-- The integer that a host offers: a whole number within 64 bits. -/
def Host.toInt64 : Host → Except Fault Int64
  | .number n => if fitsWord n then .ok (Int64.ofInt n) else .error (.outOfDomain (.integer n))
  | h => .error (.misuse (.integer h.kind))

/-- The vector of the given integers. -/
def Value.ofInts (ns : List Int64) : Except Fault Value :=
  match Items.ofList? ns with
  | some items => .ok (.vector items)
  | none => .error (.outOfDomain .emptyVector)

/-- The integers of a list of data, numbered from `index` on for messages. -/
def Datum.integers (index : Nat) : List Datum → Except Fault (List Int64)
  | [] => .ok []
  | .value (.int n) :: ds => do return n :: (← integers (index + 1) ds)
  | d :: _ => .error (.misuse (.item index d.kind))

/-- The vector whose items are the given data, each of which has to be an integer. -/
def Value.ofData (ds : List Datum) : Except Fault Value :=
  if ds.isEmpty then .error (.outOfDomain .emptyVector)
  else do Value.ofInts (← Datum.integers 0 ds)

/-- The value that stands at a place; anything else is refused by the name of the place. -/
def Datum.expect (place : String) : Datum → Except Fault Value
  | .value v => .ok v
  | .foreign h => .error (.misuse (.valueAt place h.kind))

/-- The kind of a datum that is a value. -/
def Datum.valueKind : Datum → Except Fault Value.Kind
  | .value v => .ok v.kind
  | .foreign h => .error (.misuse (.value h.kind))

/-! ## Arrays -/

/-- A number, or a list of such arrays. -/
inductive Nested where
  | item (n : Int64)
  | list (members : List Nested)

namespace Nested

/-- The depth of an array, measured at its first members. -/
def rank : Nested → Nat
  | .item _ => 0
  | .list [] => 1
  | .list (m :: _) => m.rank + 1

/-- The number that an array is, if it is one. -/
def item? : Nested → Option Int64
  | .item n => some n
  | .list _ => none

/-- The value that an array is: rank 0 is an integer, rank 1 a vector. -/
def toValue : Nested → Except Fault Value
  | .item n => .ok (.int n)
  | .list ms =>
    match (Nested.list ms).rank with
    | 1 => Value.ofInts (ms.filterMap item?)
    | r => .error (.unsupported (.rank r))

end Nested

end VectorCalc
