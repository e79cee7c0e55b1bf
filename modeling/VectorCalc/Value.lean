/-!
# Values

A value is an integer or a vector of integers. Integers are signed and 64 bits wide; a vector has
at least one item, and a vector of one item is not the integer it holds.
-/

namespace VectorCalc

/-! ## Items of a vector -/

/-- The items of a vector: one or more integers in order. -/
structure Items where
  /-- The items, first to last. -/
  toList : List Int64
  ne_nil : toList ≠ []
deriving DecidableEq

namespace Items

/-- The items of a list, if it has any. -/
def ofList? (xs : List Int64) : Option Items :=
  if h : xs = [] then none else some ⟨xs, h⟩

/-- How many items there are. -/
def length (v : Items) : Nat := v.toList.length

/-- Items at the same place combined; the longer vector is cut to the shorter one. -/
def zipWith (f : Int64 → Int64 → Int64) (v w : Items) : Items :=
  ⟨v.toList.zipWith f w.toList, by simpa using ⟨v.ne_nil, w.ne_nil⟩⟩

/-- What has been combined from the left up to each item. -/
def scan (f : Int64 → Int64 → Int64) (v : Items) : Items :=
  ⟨(v.toList.tail.scanl f (v.toList.head v.ne_nil)), by simp⟩

/-- All items combined from the left. -/
def fold (f : Int64 → Int64 → Int64) (v : Items) : Int64 :=
  v.toList.tail.foldl f (v.toList.head v.ne_nil)

@[simp] theorem toList_zipWith (f : Int64 → Int64 → Int64) (v w : Items) :
    (v.zipWith f w).toList = v.toList.zipWith f w.toList := rfl

@[simp] theorem length_toList (v : Items) : v.toList.length = v.length := rfl

theorem length_scan (f : Int64 → Int64 → Int64) (v : Items) : (v.scan f).length = v.length := by
  have := List.length_pos_iff.2 v.ne_nil
  simp only [length, scan, List.length_scanl, List.length_tail]
  omega

end Items

/-! ## Values and their texts -/

/-- An integer or a vector of integers. -/
inductive Value where
  | int (n : Int64)
  | vector (items : Items)
deriving DecidableEq

namespace Value

/-- Whether a value is an integer or a vector. -/
inductive Kind where
  | int
  | vector
deriving DecidableEq

/-- The word for a kind in messages. -/
def Kind.text : Kind → String
  | .int => "int"
  | .vector => "vector"

/-- The kind of a value. -/
def kind : Value → Kind
  | .int _ => .int
  | .vector _ => .vector

/-- The integers of a value, first to last. -/
def toList : Value → List Int64
  | .int n => [n]
  | .vector v => v.toList

/-- An integer in decimal, with a minus sign if it is negative. -/
def decimal (n : Int64) : String := toString n.toInt

/-- A value as the shell prints it: its integers in decimal, separated by single spaces. -/
def text (v : Value) : String := " ".intercalate (v.toList.map decimal)

/-- An integer as it stands in a listing of bindings. -/
def inspectInt (n : Int64) : String := "Int(value=" ++ decimal n ++ ")"

/-- A value as it stands in a listing of bindings; a lone item is followed by a comma. -/
def inspect : Value → String
  | .int n => inspectInt n
  | .vector v =>
    let items := v.toList.map inspectInt
    "Vector(items=(" ++ ", ".intercalate items ++ (if items.length = 1 then "," else "") ++ "))"

/-- The bare integers of a value: one in decimal, several in brackets. -/
def raw : Value → String
  | .int n => decimal n
  | .vector v => "[" ++ ", ".intercalate (v.toList.map decimal) ++ "]"

end Value

/-- The integers that fit into a signed 64-bit word. -/
def fitsWord (n : Int) : Bool := Int64.minValue.toInt ≤ n && n ≤ Int64.maxValue.toInt

end VectorCalc
