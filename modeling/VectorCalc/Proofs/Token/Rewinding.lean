import Mathlib
import VectorCalc.Proofs.Token.Marks

/-!
# A cursor is a stream that can be rewound

What a reader may expect of a stream of tokens that keeps the last `capacity` of them, said without
scanners and histories (`Rewinds`): a step forward gives the token at the reading mark, a step back
is granted as long as a token that is kept has been read, and the stream is scanned only where the
reading mark meets the other one. `Cursor.rewinds_ofMoves` says that a cursor behaves so, whatever
steps have been taken before.
-/

namespace VectorCalc.Token

/-! ## Streams that can be rewound -/

/-- The end of the last one of the first `n` tokens. -/
def scannedTo (source : String) : Nat → Nat
  | 0 => 0
  | n + 1 => (stream source n).stop

/-- Where the oldest token begins that is kept after `n` tokens have been scanned. -/
def oldestStart (source : String) (capacity n : Nat) : Nat :=
  if n = 0 then 0 else (stream source (n - min capacity n)).start

/-- A step of a reader between the marks `⟨n, p⟩`, of which `n` counts the tokens scanned and `p`
those read, and what it gives: a token, nothing, or a fault. -/
inductive Rewinds (source : String) (capacity : Nat) :
    Marks → Move → Except Fault (Option Token) → Marks → Prop where
  /-- Where all tokens scanned have been read, the next one is scanned. -/
  | scan (n : Nat) :
    Rewinds source capacity ⟨n, n⟩ .next (.ok (some (stream source n))) ⟨n + 1, n + 1⟩
  /-- A token that was scanned before is read again. -/
  | again {n p : Nat} (h : p < n) :
    Rewinds source capacity ⟨n, p⟩ .next (.ok (some (stream source p))) ⟨n, p + 1⟩
  /-- A step back to a token that is kept. -/
  | back {n p : Nat} (h : n - p < min capacity n) :
    Rewinds source capacity ⟨n, p⟩ .retract (.ok none) ⟨n, p - 1⟩
  /-- A step back is refused if all tokens kept are already to be read again. -/
  | refused {n p : Nat} (h : n - p = min capacity n) :
    Rewinds source capacity ⟨n, p⟩ .retract
      (.error (.malformed (.retractionExhausted capacity (n - p))
        ⟨oldestStart source capacity n, oldestStart source capacity n⟩ [] none)) ⟨n, p⟩
  /-- A word that is no space. -/
  | word {m m' : Marks} {t : Token} (h : Rewinds source capacity m .next (.ok (some t)) m')
    (ht : t.kind ≠ .space) : Rewinds source capacity m .nextWord (.ok (some t)) m'
  /-- The word behind a space. -/
  | skip {m m' m'' : Marks} {t : Token} {a : Except Fault (Option Token)}
    (h : Rewinds source capacity m .next (.ok (some t)) m') (ht : t.kind = .space)
    (h' : Rewinds source capacity m' .next a m'') : Rewinds source capacity m .nextWord a m''

variable {source : String} {capacity : Nat} {c : Cursor} {m : Marks}

/-- The marks move forward as a stream does that can be rewound. -/
theorem rewinds_next (h : m.position ≤ m.scanned) :
    Rewinds source capacity m .next (.ok (some (stream source m.position))) m.next := by
  obtain ⟨n, p⟩ := m
  have hle : p ≤ n := h
  by_cases hp : p = n
  · have hmax : max n (n + 1) = n + 1 := by omega
    rw [hp, Marks.next]
    dsimp only
    rw [hmax]
    exact .scan n
  · have hlt : p < n := by omega
    have hmax : max n (p + 1) = n := by omega
    rw [Marks.next]
    dsimp only
    rw [hmax]
    exact .again hlt

theorem Marks.next_le (m : Marks) : m.next.position ≤ m.next.scanned := Nat.le_max_right _ _

/-- After `n` scans the scanner stands at the end of the last token scanned. -/
theorem index_skip (source : String) (n : Nat) :
    ((Scanner.ofText source).skip n).index = scannedTo source n := by
  cases n with
  | zero => rfl
  | succ n => rw [Scanner.skip_succ, Scanner.scan_index, scan_skip, scannedTo]

namespace Cursor

/-- What a cursor answers to a step. -/
def answer (c : Cursor) : Move → Except Fault (Option Token)
  | .next => (Reader.next c).1.map some
  | .retract => (Reader.retract c).1.map fun _ => none
  | .nextWord => (Reader.nextWord c).1.map some

/-! ## Steps of a cursor -/

/-- The reading mark does not pass the other one. -/
theorem Shows.position_le (h : Shows source capacity c m) : m.position ≤ m.scanned := by
  have hsum := h.pending_eq
  omega

/-- The oldest token that a cursor keeps is the one at the distance of its capacity. -/
theorem Shows.oldest_eq (h : Shows source capacity c m) :
    c.oldest = oldestStart source capacity m.scanned := by
  have hpos := c.capacity_pos
  rw [h.capacity_eq] at hpos
  rw [oldest, h.recent_eq, oldestStart]
  by_cases hn : m.scanned = 0
  · rw [if_pos hn, hn, scannedBefore, List.take_nil]
    rfl
  · have hlen : ((scannedBefore source m.scanned).take capacity).length =
        min capacity m.scanned := by
      rw [List.length_take, length_scannedBefore]
    have hlast : ((scannedBefore source m.scanned).take capacity).getLast? =
        some (stream source (m.scanned - min capacity m.scanned)) := by
      rw [List.getLast?_eq_getElem?, hlen, List.getElem?_take_of_lt (by omega),
        getElem?_scannedBefore source (by omega)]
      congr 2
      omega
    rw [if_neg hn, hlast]

theorem Shows.answer_next (h : Shows source capacity c m) :
    c.answer .next = .ok (some (stream source m.position)) := by
  rw [← h.next.1]
  rfl

/-- A cursor answers every step as a stream does that can be rewound, and moves its marks so. -/
theorem Shows.rewinds (h : Shows source capacity c m) (step : Move) :
    Rewinds source capacity m step (c.answer step) (m.move source capacity step) := by
  have hle := h.position_le
  have hsum := h.pending_eq
  cases step with
  | next =>
    rw [h.answer_next]
    exact rewinds_next hle
  | retract =>
    have hkept := h.pending_le
    have hpending : m.scanned - m.position = c.pending := by omega
    simp only [answer, Reader.run_retract, Marks.move, Marks.retract]
    cases hg : m.granted capacity with
    | true =>
      obtain ⟨c', hc, -⟩ := h.retract hg
      have hrun : Source.retract c = .ok c' := hc
      rw [hrun]
      exact .back (Marks.granted_iff.1 hg)
    | false =>
      have hrun : Source.retract c = _ := h.retract_refused hg
      rw [Bool.eq_false_iff, ne_eq, Marks.granted_iff] at hg
      rw [hrun, h.oldest_eq, ← hpending]
      exact .refused (by omega)
  | nextWord =>
    have hfirst := h.next
    have hnext : c.next = Source.next c := rfl
    have hstep : Rewinds source capacity m .next (.ok (some (stream source m.position))) m.next :=
      rewinds_next hle
    simp only [answer, Reader.run_nextWord, Marks.move]
    rw [← hnext, hfirst.1]
    by_cases hs : (stream source m.position).kind = .space
    · have hsecond := hfirst.2.answer_next
      rw [answer] at hsecond
      rw [if_pos hs, if_pos hs, hsecond]
      exact .skip hstep hs (rewinds_next (Marks.next_le m))
    · rw [if_neg hs, if_neg hs]
      exact .word hstep hs

/-- A step that ends in a fault leaves the cursor as it is. -/
theorem move_of_answer {step : Move} {f : Fault} (h : c.answer step = .error f) :
    c.move step = c := by
  cases step with
  | next => cases h
  | nextWord =>
    simp only [answer, Reader.run_nextWord] at h
    split at h <;> cases h
  | retract =>
    simp only [answer, Reader.run_retract] at h
    rw [move, Reader.run_retract]
    cases hrun : Source.retract c with
    | ok c' =>
      rw [hrun] at h
      cases h
    | error f' => rfl

/-! ## Steps from the beginning of a line -/

/-- A cursor is a stream that can be rewound. After any steps from the beginning of a line it stands
between two marks: the tokens between them are to be read again, and there are no more of these than
it keeps. Its scanner stands behind the last token scanned. It answers the next step as such a stream
does between the same marks, and a fault leaves it as it is. -/
theorem rewinds_ofMoves (source : String) {capacity : Nat} (h : 0 < capacity) (steps : List Move) :
    let c := ofMoves source capacity h steps
    let m := Marks.ofMoves source capacity steps
    (m.position ≤ m.scanned ∧ m.scanned - m.position ≤ min capacity m.scanned) ∧
    Marks.ofMoves source capacity [] = ⟨0, 0⟩ ∧
    c.pending = m.scanned - m.position ∧
    c.scanner = (Scanner.ofText source).skip m.scanned ∧
    c.scanner.index = scannedTo source m.scanned ∧
    ∀ step,
      Rewinds source capacity m step (c.answer step)
          (Marks.ofMoves source capacity (steps ++ [step])) ∧
        ∀ f, c.answer step = .error f → ofMoves source capacity h (steps ++ [step]) = c := by
  intro c m
  have hshows : Shows source capacity c m := shows_moves source capacity h steps
  have hsum := hshows.pending_eq
  have hkept := hshows.pending_le
  have hmarks : ∀ step, Marks.ofMoves source capacity (steps ++ [step]) =
      m.move source capacity step := fun step => List.foldl_concat _ _ step steps
  have hcursor : ∀ step, ofMoves source capacity h (steps ++ [step]) = c.move step :=
    fun step => List.foldl_concat _ _ step steps
  refine ⟨⟨by omega, by omega⟩, rfl, by omega, hshows.scanner_eq, ?_,
    fun step => ⟨?_, fun f hf => ?_⟩⟩
  · rw [hshows.scanner_eq, index_skip]
  · rw [hmarks]
    exact hshows.rewinds step
  · rw [hcursor]
    exact move_of_answer hf

/-- A cursor of one token that has read `x` and `=` and has stepped back over the sign is refused a
further step back, at the place of the sign. -/
theorem rewinds_sign :
    Rewinds "x=1" 1 ⟨2, 1⟩ .retract
      (.error (.malformed (.retractionExhausted 1 1) ⟨1, 1⟩ [] none)) ⟨2, 1⟩ := by
  have hcursor : (ofMoves "x=1" 1 (by decide) [.next, .next, .retract]).answer .retract =
      .error (.malformed (.retractionExhausted 1 1) ⟨1, 1⟩ [] none) := by
    decide +kernel
  have hmarks : Marks.ofMoves "x=1" 1 [.next, .next, .retract] = ⟨2, 1⟩ := by
    decide +kernel
  have hmarks' :
      Marks.ofMoves "x=1" 1 ([Move.next, .next, .retract] ++ [Move.retract]) = ⟨2, 1⟩ := by
    decide +kernel
  have hone : 0 < 1 := by decide
  obtain ⟨-, -, -, -, -, hstep⟩ := rewinds_ofMoves "x=1" hone [.next, .next, .retract]
  have hrefused := (hstep .retract).1
  rw [hcursor, hmarks, hmarks'] at hrefused
  exact hrefused

end Cursor

end VectorCalc.Token
