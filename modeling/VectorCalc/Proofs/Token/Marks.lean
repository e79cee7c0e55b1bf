import Mathlib
import VectorCalc.Proofs.Token.Tiling
import VectorCalc.Token.Cursor
import VectorCalc.Token.Tape

/-!
# A cursor as two marks on a stream

A line gives a stream of tokens that never ends: its own tokens, and after them its end token over
and over. Whatever steps a reader takes, a cursor is described by two marks on that stream, how far
it has scanned and where it reads (`Marks`). Between the marks lie the tokens that are to be read
again; there are never more of them than the cursor keeps.

`Cursor.Shows` ties a cursor to its marks, one lemma per step says how the marks move, and
`shows_moves` follows a whole sequence of steps.
-/

namespace VectorCalc.Token

/-! ## The stream of a line -/

/-- The tokens of a line, and then its end token for ever. -/
def stream (source : String) (n : Nat) : Token := (tokenize source).getD n (eof source.length)

theorem stream_of_getElem? {source : String} {n : Nat} {t : Token}
    (h : (tokenize source)[n]? = some t) : stream source n = t := by
  rw [stream, List.getD_eq_getElem?_getD, h, Option.getD_some]

theorem stream_of_le {source : String} {n : Nat} (h : (tokenize source).length ≤ n) :
    stream source n = eof source.length := by
  rw [stream, List.getD_eq_default _ _ h]

/-- Scans give the stream. -/
theorem scan_skip (source : String) (n : Nat) :
    ((Scanner.ofText source).skip n).scan.1 = stream source n := by
  by_cases hn : n < (tokenize source).length
  · have hget := List.getElem?_eq_getElem hn
    rw [Scanner.scan_skip_of_getElem? hget, stream_of_getElem? hget]
  · -- beyond the last token the scanner has nothing left
    have hle := Nat.le_of_not_lt hn
    have hrest := Scanner.rest_skip_of_le hle
    have hindex := ((Scanner.on_ofText source).skip n).index_of_nil hrest
    rw [Scanner.scan_of_nil hrest, hindex, stream_of_le hle]

/-- The first `n` tokens of the stream, the last one first. -/
def scannedBefore (source : String) : Nat → List Token
  | 0 => []
  | n + 1 => stream source n :: scannedBefore source n

@[simp] theorem length_scannedBefore (source : String) (n : Nat) :
    (scannedBefore source n).length = n := by
  induction n with
  | zero => rfl
  | succ n ih => rw [scannedBefore, List.length_cons, ih]

theorem getElem?_scannedBefore (source : String) {n i : Nat} (h : i < n) :
    (scannedBefore source n)[i]? = some (stream source (n - 1 - i)) := by
  induction n generalizing i with
  | zero => exact absurd h (Nat.not_lt_zero i)
  | succ n ih =>
    cases i with
    | zero => rfl
    | succ i =>
      rw [scannedBefore, List.getElem?_cons_succ, ih (Nat.lt_of_succ_lt_succ h)]
      congr 2
      omega

/-! ## Marks -/

/-- How many tokens of the stream have been scanned, and the place of the next one to be read. -/
structure Marks where
  scanned : Nat
  position : Nat
deriving DecidableEq

/-- A step that a reader may take. -/
inductive Move where
  | next
  | retract
  | nextWord
deriving DecidableEq

namespace Marks

/-- At the beginning of a line. -/
def start : Marks := ⟨0, 0⟩

/-- One token further; a token is scanned if none is to be read again. -/
def next (m : Marks) : Marks := ⟨max m.scanned (m.position + 1), m.position + 1⟩

/-- A step back is granted as long as a token that is kept has been read. -/
def granted (capacity : Nat) (m : Marks) : Bool :=
  m.scanned - m.position < min capacity m.scanned

theorem granted_iff {capacity : Nat} {m : Marks} :
    m.granted capacity = true ↔ m.scanned - m.position < min capacity m.scanned :=
  decide_eq_true_iff

/-- One token back, if that is granted. -/
def retract (capacity : Nat) (m : Marks) : Marks :=
  if m.granted capacity then ⟨m.scanned, m.position - 1⟩ else m

/-- The marks after a step of a reader that keeps `capacity` tokens. -/
def move (source : String) (capacity : Nat) (m : Marks) : Move → Marks
  | .next => m.next
  | .retract => m.retract capacity
  | .nextWord => if (stream source m.position).kind = .space then m.next.next else m.next

/-- The marks after steps from the beginning of a line. -/
def ofMoves (source : String) (capacity : Nat) (steps : List Move) : Marks :=
  steps.foldl (move source capacity) start

end Marks

namespace Cursor

/-- The cursor after a step; a step back that is refused leaves it as it was. -/
def move (c : Cursor) : Move → Cursor
  | .next => (Reader.next c).2
  | .retract => (Reader.retract c).2
  | .nextWord => (Reader.nextWord c).2

/-- The cursor after steps from the beginning of a line. -/
def ofMoves (source : String) (capacity : Nat) (h : 0 < capacity) (steps : List Move) : Cursor :=
  steps.foldl move (ofText source capacity h)

/-- The cursor stands at the marks: it has scanned so far, it keeps the last tokens scanned, and
those behind its place are to be read again. -/
structure Shows (source : String) (capacity : Nat) (c : Cursor) (m : Marks) : Prop where
  capacity_eq : c.capacity = capacity
  scanner_eq : c.scanner = (Scanner.ofText source).skip m.scanned
  recent_eq : c.recent = (scannedBefore source m.scanned).take capacity
  pending_eq : m.position + c.pending = m.scanned

/-! ## Steps of a cursor -/

variable {source : String} {capacity : Nat} {c : Cursor} {m : Marks}

theorem shows_ofText (source : String) (capacity : Nat) (h : 0 < capacity) :
    Shows source capacity (ofText source capacity h) .start :=
  ⟨rfl, rfl, List.take_nil.symm, rfl⟩

theorem Shows.length_recent (h : Shows source capacity c m) :
    c.recent.length = min capacity m.scanned := by
  rw [h.recent_eq, List.length_take, length_scannedBefore]

/-- Between the marks there are no more tokens than the cursor keeps. -/
theorem Shows.pending_le (h : Shows source capacity c m) : c.pending ≤ min capacity m.scanned :=
  h.length_recent ▸ c.pending_le

/-- The next token is the one of the stream at the place of the cursor. -/
theorem Shows.next (h : Shows source capacity c m) :
    c.next.1 = stream source m.position ∧ Shows source capacity c.next.2 m.next := by
  have hsum := h.pending_eq
  by_cases hp : 0 < c.pending
  · have hlt : c.pending - 1 < m.scanned := by omega
    have hget : c.recent[c.pending - 1]? = some (stream source m.position) := by
      have hkept := h.pending_le
      rw [h.recent_eq, List.getElem?_take_of_lt (by omega), getElem?_scannedBefore source hlt]
      congr 2
      omega
    have hnext : c.next.1 = stream source m.position := by
      rw [Cursor.next, dif_pos hp]
      exact Option.some.inj ((List.getElem?_eq_getElem _).symm.trans hget)
    refine ⟨hnext, ?_⟩
    have hscanned : m.next.scanned = m.scanned := by
      simp only [Marks.next]
      omega
    rw [Cursor.next, dif_pos hp]
    exact ⟨h.capacity_eq, hscanned ▸ h.scanner_eq, hscanned ▸ h.recent_eq, by
      simp only [Marks.next]
      omega⟩
  · have hzero : c.pending = 0 := by omega
    have hpos : m.position = m.scanned := by omega
    have hscan : c.scanner.scan.1 = stream source m.scanned := by
      rw [h.scanner_eq, scan_skip]
    have hscanned : m.next.scanned = m.scanned + 1 := by
      simp only [Marks.next]
      omega
    have hrecent : c.next.2.recent = (c.scanner.scan.1 :: c.recent).take c.capacity := by
      rw [Cursor.next, dif_neg hp]
    rw [hscan, h.recent_eq, h.capacity_eq] at hrecent
    refine ⟨?_, ?_, ?_, ?_, ?_⟩
    · rw [Cursor.next, dif_neg hp, hpos]
      exact hscan
    · rw [Cursor.next, dif_neg hp]
      exact h.capacity_eq
    · rw [Cursor.next, dif_neg hp, hscanned, Scanner.skip_succ]
      exact congrArg (·.scan.2) h.scanner_eq
    · -- the oldest token may be dropped before the new one comes or after it
      rw [hrecent, hscanned, scannedBefore]
      cases capacity with
      | zero => rfl
      | succ k => simp [List.take_take]
    · rw [Cursor.next, dif_neg hp]
      simp only [Marks.next]
      omega

/-- A step back is granted as long as a token that is kept has been read. -/
theorem Shows.retract (h : Shows source capacity c m) (hg : m.granted capacity = true) :
    ∃ c', c.retract = .ok c' ∧ Shows source capacity c' ⟨m.scanned, m.position - 1⟩ := by
  have hsum := h.pending_eq
  rw [Marks.granted_iff] at hg
  have hlt : c.pending < c.recent.length := by
    rw [h.length_recent]
    omega
  refine ⟨{ c with pending := c.pending + 1, pending_le := hlt }, dif_pos hlt, ?_⟩
  refine ⟨h.capacity_eq, h.scanner_eq, h.recent_eq, ?_⟩
  dsimp only
  omega

/-- Any other step back is refused. -/
theorem Shows.retract_refused (h : Shows source capacity c m) (hg : m.granted capacity = false) :
    c.retract =
      .error (.malformed (.retractionExhausted capacity c.pending) ⟨c.oldest, c.oldest⟩ [] none) := by
  have hsum := h.pending_eq
  rw [Bool.eq_false_iff, ne_eq, Marks.granted_iff] at hg
  have hnlt : ¬ c.pending < c.recent.length := by
    rw [h.length_recent]
    omega
  rw [Cursor.retract, dif_neg hnlt, h.capacity_eq]

/-- Every step moves the cursor as it moves the marks. -/
theorem Shows.move (h : Shows source capacity c m) (step : Move) :
    Shows source capacity (c.move step) (m.move source capacity step) := by
  have hfirst := h.next
  cases step with
  | next => exact hfirst.2
  | retract =>
    simp only [Cursor.move, Reader.run_retract, Marks.move, Marks.retract]
    cases hg : m.granted capacity with
    | true =>
      obtain ⟨c', hc, hshows⟩ := h.retract hg
      have hrun : Source.retract c = .ok c' := hc
      rw [hrun]
      exact hshows
    | false =>
      have hrun : Source.retract c = _ := h.retract_refused hg
      rw [hrun]
      exact h
  | nextWord =>
    simp only [Cursor.move, Reader.run_nextWord, Marks.move, ← hfirst.1]
    split
    · next hs =>
      have hs' : c.next.1.kind = .space := hs
      rw [if_pos hs']
      exact hfirst.2.next.2
    · next hs =>
      have hs' : ¬ c.next.1.kind = .space := hs
      rw [if_neg hs']
      exact hfirst.2

/-- Whatever steps have been taken, the cursor stands at its marks. -/
theorem shows_moves (source : String) (capacity : Nat) (h : 0 < capacity) (steps : List Move) :
    Shows source capacity (ofMoves source capacity h steps)
      (Marks.ofMoves source capacity steps) := by
  have hfold : ∀ (steps : List Move) (c : Cursor) (m : Marks), Shows source capacity c m →
      Shows source capacity (steps.foldl Cursor.move c)
        (steps.foldl (Marks.move source capacity) m) := by
    intro steps
    induction steps with
    | nil => exact fun c m hc => hc
    | cons step steps ih => exact fun c m hc => ih _ _ (hc.move step)
  exact hfold steps _ _ (shows_ofText source capacity h)

end Cursor

end VectorCalc.Token
