import Mathlib
import VectorCalc.Proofs.Token.Marks

/-!
# Sources that give tokens again

What a parser relies on when it reads a line: the tokens that are left come one after the other, one
step back is granted after each of them, and a second one may be. `Source.Rereads` collects these
laws for a relation between the state of a source and the tokens that it has left.

A tape grants every step back. A cursor of one token refuses the second one in a row, and any larger
cursor grants it; this difference is `Cursor.twice`.
-/

namespace VectorCalc.Token

/-- The source goes on with the tokens to which `V` relates it. A step back after a token is granted,
and `twice` says whether a second one is, when it asks for the token before `t`. -/
structure Source.Rereads {σ : Type} [Source σ] (V : σ → List Token → Prop)
    (twice : Token → Except Fault Unit) : Prop where
  next {s : σ} {t : Token} {ts : List Token} :
    V s (t :: ts) → (Source.next s).1 = t ∧ V (Source.next s).2 ts
  /-- The tokens that are left end with an end token. -/
  more {s : σ} {t : Token} {ts : List Token} : V s (t :: ts) → t.kind ≠ .eof → ts ≠ []
  enough {s : σ} {ts : List Token} : V s ts → ts.length ≤ Source.ahead s + 1
  back {s : σ} {t : Token} {ts : List Token} :
    V s (t :: ts) → ∃ s', Source.retract (Source.next s).2 = .ok s' ∧ V s' (t :: ts)
  back_twice {s : σ} {m t : Token} {ts : List Token} :
    V s (m :: t :: ts) → twice t = .ok () →
      ∃ s' s'', Source.retract (Source.next (Source.next s).2).2 = .ok s' ∧
        Source.retract s' = .ok s'' ∧ V s'' (m :: t :: ts)
  back_once {s : σ} {m t : Token} {ts : List Token} {f : Fault} :
    V s (m :: t :: ts) → twice t = .error f →
      ∃ s', Source.retract (Source.next (Source.next s).2).2 = .ok s' ∧
        Source.retract s' = .error f

/-! ## Ends of a line -/

/-- Behind a token of the line that is no end token there are more tokens. -/
theorem ne_nil_of_suffix {source : String} {t : Token} {ts : List Token}
    (h : t :: ts <:+ tokenize source) (ht : t.kind ≠ .eof) : ts ≠ [] := by
  rintro rfl
  obtain ⟨front, hfront⟩ := h
  have hlast := (tiles_tokenize source).getLast?_eq
  rw [← hfront, List.getLast?_concat, Option.some.injEq] at hlast
  exact ht (hlast ▸ rfl)

namespace Scanner

/-- Each token but the last takes a character at least. -/
theorem length_tokens_le (s : Scanner) : s.tokens.length ≤ s.rest.length + 1 := by
  induction s using tokens.induct with
  | case1 s h => rw [tokens_of_nil h, List.length_singleton]; omega
  | case2 s h ih =>
    have hlt := length_scan_rest h
    rw [tokens_of_ne_nil h, List.length_cons]
    omega

/-- A scan takes one token at most from the list. -/
theorem length_tokens_le_skip (n : Nat) (s : Scanner) :
    s.tokens.length ≤ n + (s.skip n).tokens.length := by
  induction n generalizing s with
  | zero => rw [skip_zero]; omega
  | succ n ih =>
    have hrec := ih s.scan.2
    by_cases h : s.rest = []
    · rw [skip_of_nil h]
      omega
    · rw [tokens_of_ne_nil h, List.length_cons]
      show s.scan.2.tokens.length + 1 ≤ n + 1 + (skip n s.scan.2).tokens.length
      omega

end Scanner

/-! ## Tapes -/

/-- The tape has the tokens before it, and they end the line. -/
def Tape.Holds (source : String) (tape : Tape) (ts : List Token) : Prop :=
  tape.before = ts ∧ ts <:+ tokenize source

/-- The tape that holds what is left of a line from the token at `position` on. -/
def Tape.remaining (source : String) (position : Nat) : Tape :=
  ⟨[], (tokenize source).drop position, eof source.length⟩

/-- What a tape answers to the second of two steps back in a row. -/
def Tape.twice (_ : Token) : Except Fault Unit := .ok ()

/-- A tape grants every step back. -/
theorem Tape.rereads (source : String) : Source.Rereads (Tape.Holds source) Tape.twice where
  next := by
    rintro ⟨behind, _, final⟩ t ts ⟨rfl, hsuffix⟩
    exact ⟨rfl, rfl, (List.suffix_cons t ts).trans hsuffix⟩
  more h ht := ne_nil_of_suffix h.2 ht
  enough := by
    rintro ⟨behind, before, final⟩ ts ⟨rfl, -⟩
    exact Nat.le_succ _
  back := by
    rintro ⟨behind, _, final⟩ t ts ⟨rfl, hsuffix⟩
    exact ⟨_, rfl, rfl, hsuffix⟩
  back_twice := by
    rintro ⟨behind, _, final⟩ m t ts ⟨rfl, hsuffix⟩ -
    exact ⟨_, _, rfl, rfl, rfl, hsuffix⟩
  back_once _ h := by cases h

/-! ## Cursors -/

namespace Cursor

/-- The fault of a cursor of one token that is to step back over `t` and the token before it. -/
def refusal (t : Token) : Fault :=
  .malformed (.retractionExhausted 1 1) ⟨t.start, t.start⟩ [] none

/-- What a cursor answers to the second of two steps back in a row, when `t` is the last token read. -/
def twice (capacity : Nat) (t : Token) : Except Fault Unit :=
  if 2 ≤ capacity then .ok () else .error (refusal t)

theorem refusal_of_twice {capacity : Nat} {t : Token} {f : Fault} (h : twice capacity t = .error f) :
    f = refusal t := by
  unfold twice at h
  split at h
  · cases h
  · exact (Except.error.inj h).symm

/-- A cursor of two tokens or more answers as a tape does. -/
theorem twice_of_le {capacity : Nat} (h : 2 ≤ capacity) : twice capacity = Tape.twice :=
  funext fun _ => if_pos h

/-- The cursor has the rest of the line before it, and it has scanned no more than `limit` tokens. -/
def Holds (source : String) (capacity limit : Nat) (c : Cursor) (ts : List Token) : Prop :=
  ∃ m : Marks, Shows source capacity c m ∧ m.scanned ≤ limit ∧
    m.position + ts.length = (tokenize source).length ∧ (tokenize source).drop m.position = ts

variable {source : String} {capacity limit : Nat} {c : Cursor} {m : Marks}

theorem stream_of_drop {n : Nat} {t : Token} {ts : List Token}
    (h : (tokenize source).drop n = t :: ts) : stream source n = t := by
  apply stream_of_getElem?
  have hget := congrArg List.head? h
  rwa [List.head?_drop] at hget

/-- A cursor keeps at least the token that it has read last. -/
theorem Shows.retract_next (h : Shows source capacity c m) (hcap : 0 < capacity) :
    ∃ c', c.next.2.retract = .ok c' ∧ Shows source capacity c' ⟨m.next.scanned, m.position⟩ := by
  refine h.next.2.retract ?_
  have hkept := h.pending_le
  have hsum := h.pending_eq
  rw [Marks.granted_iff]
  simp only [Marks.next]
  omega

/-- The second of two steps back in a row is granted to a cursor of two tokens or more. -/
theorem Shows.retract_twice (h : Shows source capacity c ⟨m.next.next.scanned, m.position + 1⟩)
    (hcap : 2 ≤ capacity) (hkept : m.scanned - m.position ≤ min capacity m.scanned) :
    ∃ c', c.retract = .ok c' ∧ Shows source capacity c' ⟨m.next.next.scanned, m.position⟩ := by
  refine h.retract ?_
  rw [Marks.granted_iff]
  simp only [Marks.next]
  omega

/-- A cursor of one token keeps nothing but the token read last. -/
theorem Shows.oldest_of_one (h : Shows source 1 c m) (hp : c.pending = 1) :
    c.oldest = (stream source m.position).start := by
  have hsum := h.pending_eq
  have hn : m.scanned = m.position + 1 := by omega
  rw [oldest, h.recent_eq, hn]
  rfl

/-- A cursor of one token refuses the second of two steps back in a row. -/
theorem Shows.retract_of_one (h : Shows source 1 c m) (hp : c.pending = 1) {t : Token}
    (ht : stream source m.position = t) : c.retract = .error (refusal t) := by
  have hsum := h.pending_eq
  have hg : m.granted 1 = false := by
    rw [Bool.eq_false_iff, ne_eq, Marks.granted_iff]
    omega
  rw [h.retract_refused hg, h.oldest_of_one hp, ht, hp, refusal]

/-- A cursor rereads the line; whether it does so over two tokens depends on its capacity. -/
theorem rereads (hcap : 0 < capacity) (hlimit : (tokenize source).length ≤ limit) :
    Source.Rereads (Holds source capacity limit) (twice capacity) where
  next := by
    rintro c t ts ⟨m, hshows, hscanned, hlen, hdrop⟩
    rw [List.length_cons] at hlen
    obtain ⟨hnext, hstep⟩ := hshows.next
    refine ⟨hnext.trans (stream_of_drop hdrop), m.next, hstep, ?_, ?_, ?_⟩
    · simp only [Marks.next]
      omega
    · simp only [Marks.next]
      omega
    · simp only [Marks.next]
      rw [← List.drop_drop, hdrop]
      rfl
  more := by
    rintro c t ts ⟨m, -, -, -, hdrop⟩ ht
    exact ne_nil_of_suffix (hdrop ▸ List.drop_suffix _ _) ht
  enough := by
    rintro c ts ⟨m, hshows, -, hlen, -⟩
    -- the tokens left are those to be read again and those that are still to be scanned
    have hsum := hshows.pending_eq
    have hskip := Scanner.length_tokens_le_skip m.scanned (Scanner.ofText source)
    have hrest := Scanner.length_tokens_le ((Scanner.ofText source).skip m.scanned)
    rw [← hshows.scanner_eq] at hskip hrest
    have hahead : Source.ahead c = c.pending + c.scanner.rest.length := rfl
    rw [tokenize] at hlen
    omega
  back := by
    rintro c t ts ⟨m, hshows, hscanned, hlen, hdrop⟩
    obtain ⟨c', hc, hback⟩ := hshows.retract_next hcap
    rw [List.length_cons] at hlen
    refine ⟨c', hc, ⟨m.next.scanned, m.position⟩, hback, ?_, hlen, hdrop⟩
    simp only [Marks.next]
    omega
  back_twice := by
    rintro c first t ts ⟨m, hshows, hscanned, hlen, hdrop⟩ htwice
    have hcap2 : 2 ≤ capacity := by
      by_contra hlt
      rw [twice, if_neg hlt] at htwice
      cases htwice
    obtain ⟨c', hc, hback⟩ := hshows.next.2.retract_next hcap
    obtain ⟨c'', hc', hback'⟩ := hback.retract_twice hcap2
      (by have := hshows.pending_le; have := hshows.pending_eq; omega)
    refine ⟨c', c'', hc, hc', ⟨m.next.next.scanned, m.position⟩, hback', ?_, hlen, hdrop⟩
    rw [List.length_cons, List.length_cons] at hlen
    simp only [Marks.next]
    omega
  back_once := by
    rintro c first t ts f ⟨m, hshows, hscanned, hlen, hdrop⟩ htwice
    obtain ⟨c', hc, hback⟩ := hshows.next.2.retract_next hcap
    have hlt : ¬ 2 ≤ capacity := by
      intro hle
      rw [twice, if_pos hle] at htwice
      cases htwice
    rw [twice, if_neg hlt] at htwice
    cases htwice
    obtain rfl : capacity = 1 := by omega
    have hpending : c'.pending = 1 := by
      have hsum := hback.pending_eq
      have hkept := hback.pending_le
      simp only [Marks.next] at hsum hkept
      omega
    refine ⟨c', hc, hback.retract_of_one hpending ?_⟩
    have hdrop' : (tokenize source).drop (m.position + 1) = t :: ts := by
      rw [← List.drop_drop, hdrop]
      rfl
    exact stream_of_drop hdrop'

end Cursor

end VectorCalc.Token
