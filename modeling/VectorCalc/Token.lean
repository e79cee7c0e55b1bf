/-!
# Tokens of a line

A line of text is cut into tokens from the left, each as long as its kind allows. Cutting never
fails: a character that begins no token becomes an illegal token of its own, and past the end there
is an end token as often as one is asked for.
-/

namespace VectorCalc

/-! ## Tokens -/

/-- The kinds of tokens. -/
inductive Token.Kind where
  | eof
  | illegal
  | assign
  | number
  | operator
  | space
  | identifier
deriving DecidableEq

/-- The name of a kind in messages. -/
def Token.Kind.name : Token.Kind → String
  | .eof => "EOF"
  | .illegal => "ERROR"
  | .assign => "ASSIGN"
  | .number => "NUMBER"
  | .operator => "OPERATOR"
  | .space => "SPACE"
  | .identifier => "IDENTIFIER"

/-- A piece of a line: the characters from `start` up to but not including `stop`. -/
structure Token where
  kind : Token.Kind
  text : String
  start : Nat
  stop : Nat
deriving DecidableEq

namespace Token

/-- The end of a line of the given length. -/
def eof (length : Nat) : Token := ⟨.eof, "", length, length⟩

/-! ## Characters -/

/-- A character that separates tokens. -/
def isSpace (c : Char) : Bool := c = ' ' || c = '\t' || c = '\n'

/-- A character that continues an identifier: an ASCII letter or digit, or the underscore. -/
def isNameChar (c : Char) : Bool := c.isAlphanum || c = '_'

/-- Words that are operators and no identifiers. -/
def reserved : List String := ["min", "max"]

/-- The characters that make a longer operator of the operator `c`. -/
def extensions (c : Char) : List Char :=
  if c = '+' then ['/', '\\'] else if c = '*' then ['*', '/', '\\'] else []

/-- The kind of a token of the lone character `c`, which is no space, letter or digit. -/
def loneKind (c : Char) : Kind :=
  if c = '=' then .assign
  else if c = '+' ∨ c = '-' ∨ c = '*' ∨ c = '/' then .operator
  else .illegal

/-! ## Cutting -/

/-- The first token of the text `c :: cs`: its kind, its characters, and the characters after it. -/
def first (c : Char) (cs : List Char) : Kind × List Char × List Char :=
  if isSpace c then (.space, c :: cs.takeWhile isSpace, cs.dropWhile isSpace)
  else if c.isAlpha then
    let word := c :: cs.takeWhile isNameChar
    (if String.ofList word ∈ reserved then .operator else .identifier, word,
      cs.dropWhile isNameChar)
  else if c.isDigit then (.number, c :: cs.takeWhile Char.isDigit, cs.dropWhile Char.isDigit)
  else
    match cs with
    | d :: rest => if d ∈ extensions c then (.operator, [c, d], rest) else (loneKind c, [c], cs)
    | [] => (loneKind c, [c], [])

/-- Cutting loses no character. -/
theorem first_append (c : Char) (cs : List Char) :
    (first c cs).2.1 ++ (first c cs).2.2 = c :: cs := by
  unfold first
  split
  · simp
  · split
    · simp
    · split
      · simp
      · cases cs with
        | nil => simp
        | cons d rest => dsimp only; split <;> simp

/-- What follows the first token is shorter than the text. -/
theorem length_first_rest (c : Char) (cs : List Char) :
    (first c cs).2.2.length ≤ cs.length := by
  unfold first
  split
  · exact (List.dropWhile_suffix _).length_le
  · split
    · exact (List.dropWhile_suffix _).length_le
    · split
      · exact (List.dropWhile_suffix _).length_le
      · cases cs with
        | nil => simp
        | cons d rest => dsimp only; split <;> simp

/-- A position in a line: what is still to be cut, and how many characters lie behind. -/
structure Scanner where
  rest : List Char
  index : Nat
deriving DecidableEq

namespace Scanner

/-- The beginning of a line. -/
def ofText (source : String) : Scanner := ⟨source.toList, 0⟩

/-- The next token and the position behind it. At the end of the line both stay as they are. -/
def scan (s : Scanner) : Token × Scanner :=
  match s.rest with
  | [] => (eof s.index, s)
  | c :: cs =>
    let (kind, text, rest) := first c cs
    let stop := s.index + text.length
    (⟨kind, String.ofList text, s.index, stop⟩, ⟨rest, stop⟩)

/-- Scanning moves on unless the line has ended. -/
theorem length_scan_rest {s : Scanner} (h : s.rest ≠ []) :
    s.scan.2.rest.length < s.rest.length := by
  obtain ⟨rest, index⟩ := s
  cases rest with
  | nil => exact absurd rfl h
  | cons c cs => exact Nat.lt_succ_of_le (length_first_rest c cs)

/-- All tokens from here on, up to and including the end. -/
def tokens (s : Scanner) : List Token :=
  if _ : s.rest = [] then [s.scan.1] else s.scan.1 :: s.scan.2.tokens
termination_by s.rest.length
decreasing_by exact length_scan_rest ‹_›

end Scanner

/-- The tokens of a line, spaces included, and the end at last. -/
def tokenize (source : String) : List Token := (Scanner.ofText source).tokens

end Token

end VectorCalc
