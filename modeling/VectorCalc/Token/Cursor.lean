import VectorCalc.Token.Source

/-!
# Cursors

A cursor scans a line as it is read and keeps its last few tokens, so that it needs no more memory
for a long line than for a short one. It can step back over the tokens that it keeps; a step back
beyond these is refused and changes nothing.
-/

namespace VectorCalc.Token

/-- A reader of a line that keeps its last `capacity` tokens. -/
structure Cursor where
  scanner : Scanner
  capacity : Nat
  /-- The tokens kept, the last one first. -/
  recent : List Token
  /-- How many of them are to be read again. -/
  pending : Nat
  capacity_pos : 0 < capacity
  length_recent : recent.length ≤ capacity
  pending_le : pending ≤ recent.length

namespace Cursor

/-- A cursor at the beginning of a line. -/
def ofText (source : String) (capacity : Nat) (h : 0 < capacity) : Cursor :=
  ⟨.ofText source, capacity, [], 0, h, Nat.zero_le _, Nat.le_refl _⟩

/-- The greatest capacity that is granted. -/
def capacityLimit : Int := Int64.maxValue.toInt

/-- A cursor at the beginning of a line, with the capacity that is asked for. -/
def ofText? (source : String) (capacity : Int) : Except Fault Cursor :=
  if h : 0 < capacity.toNat then
    if capacity ≤ capacityLimit then .ok (ofText source capacity.toNat h)
    else .error (.outOfDomain .capacityTooLarge)
  else .error (.outOfDomain .capacity)

/-- Every positive capacity up to the limit is granted. -/
theorem ofText?_of_le {capacity : Nat} (source : String) (h : 0 < capacity)
    (hle : (capacity : Int) ≤ capacityLimit) :
    ofText? source capacity = .ok (ofText source capacity h) := by
  simp [ofText?, h, hle]

/-- The next token: the oldest one to be read again, or else one that is scanned and kept, for which
the oldest token kept may have to go. -/
def next (c : Cursor) : Token × Cursor :=
  if h : 0 < c.pending then
    (c.recent.get ⟨c.pending - 1, Nat.lt_of_lt_of_le (Nat.sub_lt h Nat.one_pos) c.pending_le⟩,
      { c with
        pending := c.pending - 1
        pending_le := Nat.le_trans (Nat.sub_le ..) c.pending_le })
  else
    let (token, scanner) := c.scanner.scan
    (token,
      { c with
        scanner
        recent := (token :: c.recent).take c.capacity
        pending := 0
        length_recent := List.length_take_le ..
        pending_le := Nat.zero_le _ })

/-- The place that is named when a step back is refused: the oldest token kept. -/
def oldest (c : Cursor) : Nat :=
  match c.recent.getLast? with
  | some token => token.start
  | none => 0

/-- One step back, refused if all tokens kept are already to be read again. -/
def retract (c : Cursor) : Except Fault Cursor :=
  if h : c.pending < c.recent.length then
    .ok { c with pending := c.pending + 1, pending_le := h }
  else
    .error (.malformed (.retractionExhausted c.capacity c.pending) ⟨c.oldest, c.oldest⟩ [] none)

/-- At most this many tokens come before the end: those to be read again, and one for each character
that is still to be scanned. -/
def ahead (c : Cursor) : Nat := c.pending + c.scanner.rest.length

instance : Source Cursor := ⟨next, retract, ahead⟩

end Cursor

end VectorCalc.Token
