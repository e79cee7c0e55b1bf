import VectorCalc.Text.Hex

/-!
# UTF-8 read in pieces

Bytes arrive in chunks, and a character may be cut by the end of a chunk. The decoder is a machine
that takes one byte at a time: its state is the character under way, as the bits known so far and
the ranges in which the bytes still owed must lie. A fault names bytes by their position in the
chunk, where bytes carried over from the chunk before count as its first ones.
-/

namespace VectorCalc.Text.Utf8

/-- Why bytes are no text. -/
inductive Reason where
  | invalidStart
  | invalidContinuation
  | unexpectedEnd
deriving DecidableEq

/-- The bytes at `start` up to but not including `stop`, of which `byte` is the first, are no text. -/
structure Fault where
  reason : Reason
  byte : UInt8
  start : Nat
  stop : Nat
deriving DecidableEq

/-- The words for a reason. -/
def Reason.text : Reason → String
  | .invalidStart => "invalid start byte"
  | .invalidContinuation => "invalid continuation byte"
  | .unexpectedEnd => "unexpected end of data"

/-- The message for a fault; one byte is shown, of several only the positions. -/
def Fault.message (f : Fault) : String :=
  "'utf-8' codec can't decode " ++
    (if f.stop = f.start + 1 then
      "byte 0x" ++ String.ofList (hex 2 f.byte.toNat) ++ " in position " ++ toString f.start
     else "bytes in position " ++ toString f.start ++ "-" ++ toString (f.stop - 1)) ++
    ": " ++ f.reason.text

/-! ## The machine -/

/-- The character under way. Between characters nothing is owed. -/
structure State where
  /-- The first byte of the character. -/
  lead : UInt8
  /-- How many of its bytes have been taken. -/
  taken : Nat
  /-- How many of these can begin a character. -/
  sound : Nat
  /-- The bits known so far. -/
  code : Nat
  /-- The ranges of the bytes still to come. -/
  owed : List (Nat × Nat)
deriving DecidableEq

/-- Between characters. -/
def State.idle : State := ⟨0, 0, 0, 0, []⟩

/-- The range of a byte that continues a character. -/
def tail : Nat × Nat := (0x80, 0xBF)

/-- What a first byte says: the bits it carries, and the ranges of the bytes that must follow. -/
def opening? (b : Nat) : Option (Nat × List (Nat × Nat)) :=
  if b < 0x80 then some (b, [])
  else if b < 0xC2 then none
  else if b < 0xE0 then some (b - 0xC0, [tail])
  else if b = 0xE0 then some (0, [(0xA0, 0xBF), tail])
  else if b < 0xF0 then some (b - 0xE0, [tail, tail])
  else if b = 0xF0 then some (0, [(0x90, 0xBF), tail, tail])
  else if b < 0xF4 then some (b - 0xF0, [tail, tail, tail])
  else if b = 0xF4 then some (4, [(0x80, 0x8F), tail, tail])
  else none

/-- The two bytes are the beginning of a surrogate half. No character begins so, but the fault is
only found at the byte behind them. -/
def opensSurrogate (s : State) (b : UInt8) : Bool :=
  s.lead = 0xED && s.taken = 1 && 0xA0 ≤ b

/-- A fault at the character under way, which began at `start`. -/
def State.fault (s : State) (start : Nat) : Fault :=
  ⟨.invalidContinuation, s.lead, start, start + s.sound⟩

/-- One byte, at position `pos` of its chunk: the character that it ends, if any, and the state
after it. -/
def step (s : State) (pos : Nat) (b : UInt8) : Except Fault (Option Char × State) :=
  match s.owed with
  | [] =>
    match opening? b.toNat with
    | none => .error ⟨.invalidStart, b, pos, pos + 1⟩
    | some (code, []) => .ok (some (Char.ofNat code), .idle)
    | some (code, owed) => .ok (none, ⟨b, 1, 1, code, owed⟩)
  | (lo, hi) :: owed =>
    if lo ≤ b.toNat ∧ b.toNat ≤ hi then
      let code := 64 * s.code + b.toNat % 64
      if owed.isEmpty then .ok (some (Char.ofNat code), .idle)
      else if opensSurrogate s b then .ok (none, ⟨s.lead, 2, 1, 0, [(1, 0)]⟩)
      else .ok (none, ⟨s.lead, s.taken + 1, s.taken + 1, code, owed⟩)
    else .error (s.fault (pos - s.taken))

/-- The characters that the bytes end, and the state after them. -/
def run (s : State) (pos : Nat) : List UInt8 → Except Fault (List Char × State)
  | [] => .ok ([], s)
  | b :: bs => do
    let (c, s) ← step s pos b
    let (cs, s) ← run s (pos + 1) bs
    return (c.toList ++ cs, s)

/-! ## Chunks -/

/-- How many bytes are read at once. -/
def chunkSize : Nat := 8192

/-- What the end of the input says about the character under way. -/
def State.finish (s : State) : Option Fault :=
  if s.owed.isEmpty then none
  else if s.sound < s.taken then some (s.fault 0)
  else some ⟨.unexpectedEnd, s.lead, 0, s.taken⟩

/-- The text of the chunks before the first fault, and that fault. -/
def decodeFrom (s : State) (bytes : List UInt8) : List Char × Option Fault :=
  if _ : bytes = [] then ([], s.finish)
  else
    match run s s.taken (bytes.take chunkSize) with
    | .error f => ([], some f)
    | .ok (cs, s) =>
      let (rest, f) := decodeFrom s (bytes.drop chunkSize)
      (cs ++ rest, f)
termination_by bytes.length
decreasing_by
  have : 0 < bytes.length := List.length_pos_iff.2 ‹_›
  simp only [List.length_drop, chunkSize]
  omega

/-- The text of a whole input up to the first faulty chunk, and the fault. -/
def decode (bytes : List UInt8) : List Char × Option Fault := decodeFrom .idle bytes

end VectorCalc.Text.Utf8
