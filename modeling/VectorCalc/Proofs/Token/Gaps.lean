import Mathlib
import VectorCalc.Proofs.Token.Regular
import VectorCalc.Proofs.Token.Rewinding

/-!
# Gaps between words

A reader that wants a word reads one token, and one more if that is a space; it never looks at a
third one. This is enough, since however many blanks stand in a gap they are cut as one token
(`kind_stream_succ`), and since a cursor goes on with the stream of its line from its place on
(`Cursor.answer_forward`). That place may lie in front of a gap that is to be read again while the
word behind it is still to be scanned, and with a capacity of one the gap is dropped in between.

`FirstWord` says which token a reader of words is to get, without saying how it is found, and
`Cursor.nextWord_ofMoves` that the cursor gives it, whatever steps have been taken before.
-/

namespace VectorCalc.Token

/-! ## Words of a stream -/

/-- From `position` on, the first token of the stream that is no space stands at `place`. -/
structure FirstWord (source : String) (position place : Nat) : Prop where
  position_le : position ≤ place
  kind_ne : (stream source place).kind ≠ .space
  /-- Before it there are spaces only. -/
  kind_eq : ∀ n, position ≤ n → n < place → (stream source n).kind = .space

variable {source : String} {capacity position : Nat}

/-- Behind a space of the stream there is no other one. -/
theorem kind_stream_succ (h : (stream source position).kind = .space) :
    (stream source (position + 1)).kind ≠ .space := by
  rw [← scan_skip] at h ⊢
  rw [Scanner.skip_succ]
  exact Scanner.scan_scan_kind h

theorem firstWord_of_ne (h : (stream source position).kind ≠ .space) :
    FirstWord source position position where
  position_le := Nat.le_refl _
  kind_ne := h
  kind_eq _ hle hlt := absurd hlt (Nat.not_lt.2 hle)

theorem firstWord_of_space (h : (stream source position).kind = .space) :
    FirstWord source position (position + 1) where
  position_le := Nat.le_succ _
  kind_ne := kind_stream_succ h
  kind_eq n hle hlt := by
    obtain rfl : n = position := by omega
    exact h

/-! ## Steps forward -/

/-- Each plain step forward takes the reading mark one token further. -/
theorem Marks.position_forward (source : String) (capacity : Nat) (steps : List Move) (n : Nat) :
    (ofMoves source capacity (steps ++ List.replicate n .next)).position =
      (ofMoves source capacity steps).position + n := by
  induction n with
  | zero => rw [List.replicate_zero, List.append_nil, Nat.add_zero]
  | succ n ih =>
    have hlast : ofMoves source capacity (steps ++ List.replicate (n + 1) .next) =
        (ofMoves source capacity (steps ++ List.replicate n .next)).next := by
      rw [List.replicate_succ', ← List.append_assoc]
      exact List.foldl_concat _ _ _ _
    rw [hlast, Marks.next, ih, Nat.add_assoc]

namespace Cursor

variable {c : Cursor} {m : Marks}

/-- Step by step a cursor reads the stream from its place on. -/
theorem answer_forward (source : String) {capacity : Nat} (h : 0 < capacity) (steps : List Move)
    (n : Nat) :
    (ofMoves source capacity h (steps ++ List.replicate n .next)).answer .next =
      .ok (some (stream source ((Marks.ofMoves source capacity steps).position + n))) := by
  rw [(shows_moves source capacity h _).answer_next, Marks.position_forward]

/-! ## Words behind a gap -/

/-- A word that stands at the place of the cursor is read by one step. -/
theorem nextWord_of_ne (h : c.next.1.kind ≠ .space) :
    c.answer .nextWord = c.answer .next ∧ c.move .nextWord = c.move .next := by
  have hword : (Source.next c).1.kind ≠ .space := h
  have hrun : Reader.nextWord c = Reader.next c := by
    rw [Reader.run_nextWord, if_neg hword, Reader.run_next]
  exact ⟨congrArg (·.1.map some) hrun, congrArg Prod.snd hrun⟩

/-- A word that stands behind a space is read by two steps. -/
theorem nextWord_of_space (h : c.next.1.kind = .space) :
    c.answer .nextWord = (c.move .next).answer .next ∧
      c.move .nextWord = (c.move .next).move .next := by
  have hspace : (Source.next c).1.kind = .space := h
  have hrun : Reader.nextWord c = Reader.next (c.move .next) := by
    rw [Reader.run_nextWord, if_pos hspace]
    rfl
  exact ⟨congrArg (·.1.map some) hrun, congrArg Prod.snd hrun⟩

/-- A cursor gives the first word at its place or behind it, and moves over it. -/
theorem Shows.nextWord (h : Shows source capacity c m) :
    ∃ place, FirstWord source m.position place ∧ place ≤ m.position + 1 ∧
      c.answer .nextWord = .ok (some (stream source place)) ∧
      c.move .nextWord = (List.replicate (place + 1 - m.position) Move.next).foldl Cursor.move c ∧
      m.move source capacity .nextWord = ⟨max m.scanned (place + 1), place + 1⟩ := by
  by_cases hs : (stream source m.position).kind = .space
  · -- the gap is one token, so the word stands behind it
    obtain ⟨hanswer, hmove⟩ := nextWord_of_space (h.next.1.symm ▸ hs)
    refine ⟨m.position + 1, firstWord_of_space hs, Nat.le_refl _, ?_, ?_, ?_⟩
    · rw [hanswer]
      exact h.next.2.answer_next
    · have htwo : m.position + 1 + 1 - m.position = 2 := by omega
      rw [hmove, htwo]
      rfl
    · simp only [Marks.move, if_pos hs, Marks.next, Marks.mk.injEq, and_true]
      omega
  · obtain ⟨hanswer, hmove⟩ := nextWord_of_ne (h.next.1.symm ▸ hs)
    refine ⟨m.position, firstWord_of_ne hs, Nat.le_succ _, ?_, ?_, ?_⟩
    · rw [hanswer]
      exact h.answer_next
    · rw [hmove, Nat.add_sub_cancel_left]
      rfl
    · rw [Marks.move, if_neg hs, Marks.next]

/-- One skip is enough. After any steps from the beginning of a line a cursor stands at a place of the
stream, from which on plain steps give one token after the other. Asked for a word it gives the first
token from there on that is no space, and it stands right behind that token, as if it had read up to
it by plain steps. -/
theorem nextWord_ofMoves (source : String) {capacity : Nat} (h : 0 < capacity)
    (steps : List Move) :
    let c := ofMoves source capacity h steps
    let m := Marks.ofMoves source capacity steps
    c.Shows source capacity m ∧
    (∀ n, (ofMoves source capacity h (steps ++ List.replicate n .next)).answer .next =
      .ok (some (stream source (m.position + n)))) ∧
    ∃ place, FirstWord source m.position place ∧ place ≤ m.position + 1 ∧
      c.answer .nextWord = .ok (some (stream source place)) ∧
      c.move .nextWord =
        ofMoves source capacity h (steps ++ List.replicate (place + 1 - m.position) .next) ∧
      (c.move .nextWord).Shows source capacity ⟨max m.scanned (place + 1), place + 1⟩ := by
  intro c m
  have hshows : Shows source capacity c m := shows_moves source capacity h steps
  obtain ⟨place, hfirst, hle, hanswer, hmove, hmarks⟩ := hshows.nextWord
  refine ⟨hshows, answer_forward source h steps, place, hfirst, hle, hanswer, ?_, ?_⟩
  · rw [hmove, ofMoves, List.foldl_append]
    rfl
  · rw [← hmarks]
    exact hshows.move .nextWord

/-- A cursor of one token that has stepped back over the gap between `a` and `b` reads the gap again,
scans `b` and gives that. -/
theorem nextWord_stepped :
    (ofMoves "a \tb" 1 Nat.one_pos [.nextWord, .next, .retract]).answer .nextWord =
        .ok (some ⟨.identifier, "b", 3, 4⟩) ∧
      ((ofMoves "a \tb" 1 Nat.one_pos [.nextWord, .next, .retract]).move .nextWord).Shows
        "a \tb" 1 ⟨3, 3⟩ := by
  have hmarks : Marks.ofMoves "a \tb" 1 [.nextWord, .next, .retract] = ⟨2, 1⟩ := by
    decide +kernel
  have hgap : (stream "a \tb" 1).kind = .space := by decide +kernel
  have hword : stream "a \tb" 2 = ⟨.identifier, "b", 3, 4⟩ := by decide +kernel
  obtain ⟨-, -, place, hfirst, hle, hanswer, -, hshows⟩ :=
    nextWord_ofMoves "a \tb" Nat.one_pos [.nextWord, .next, .retract]
  rw [hmarks] at hfirst hle hshows
  have hplace : place = 2 := by
    have hge := hfirst.position_le
    have hne : place ≠ 1 := by
      rintro rfl
      exact hfirst.kind_ne hgap
    dsimp only at hge hle
    omega
  subst hplace
  exact ⟨hword ▸ hanswer, hshows⟩

end Cursor

end VectorCalc.Token
