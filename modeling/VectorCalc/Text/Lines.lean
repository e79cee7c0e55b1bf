/-!
# Lines of a text

A line ends at a line feed, at a carriage return, or at the pair of both; nothing else ends a line.
The last line needs no end.
-/

namespace VectorCalc.Text

/-- Every line end written as a line feed. -/
def unifyLineEnds : List Char → List Char
  | [] => []
  | '\r' :: '\n' :: cs => '\n' :: unifyLineEnds cs
  | c :: cs => (if c = '\r' then '\n' else c) :: unifyLineEnds cs

/-- The lines before the last line feed, without their ends, and what follows it. -/
def splitLines : List Char → List (List Char) × List Char
  | [] => ([], [])
  | c :: cs =>
    let (ls, last) := splitLines cs
    if c = '\n' then ([] :: ls, last)
    else
      match ls with
      | [] => ([], c :: last)
      | l :: ls => ((c :: l) :: ls, last)

/-- The lines of a text that has ended. -/
def lines (text : List Char) : List String :=
  let (ls, last) := splitLines (unifyLineEnds text)
  (ls ++ if last.isEmpty then [] else [last]).map String.ofList

/-- The lines that are complete in a text that breaks off. A carriage return at its very end may be
the first half of a line end, so it completes no line. -/
def completeLines (text : List Char) : List String :=
  let text := if text.getLast? = some '\r' then text.dropLast else text
  (splitLines (unifyLineEnds text)).1.map String.ofList

end VectorCalc.Text
