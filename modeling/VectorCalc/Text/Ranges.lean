/-!
# Sets of characters as ranges of code points

A property of characters that a standard fixes is kept as a list of closed ranges, ascending and
apart from each other. Whether a character has the property is one look-up in that list.
-/

namespace VectorCalc.Text

/-- Closed ranges of code points, each given by its first and its last member. -/
abbrev Ranges := List (Nat × Nat)

namespace Ranges

/-- The code point lies in one of the ranges. -/
def covers (rs : Ranges) (n : Nat) : Bool := rs.any fun r => r.1 ≤ n && n ≤ r.2

/-- The ranges ascend and no two of them touch. -/
def ascending : Ranges → Bool
  | [] => true
  | [r] => r.1 ≤ r.2
  | r :: s :: rest => r.1 ≤ r.2 && r.2 + 1 < s.1 && ascending (s :: rest)

/-- How many code points the ranges hold together. -/
def count (rs : Ranges) : Nat := rs.foldl (fun n r => n + (r.2 + 1 - r.1)) 0

end Ranges

end VectorCalc.Text
