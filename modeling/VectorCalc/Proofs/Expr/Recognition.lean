import Mathlib
import VectorCalc.Machine.Evaluate
import VectorCalc.Proofs.Expr.Agreement
import VectorCalc.Proofs.Expr.Completeness

/-!
# The parser recognizes the grammar

A line is parsed by a cursor, which reads it as it is scanned and keeps a few tokens. It ends as the
parser on the list of all tokens (`Agrees`), which gives what the grammar derives.
-/

namespace VectorCalc.Expr

open Token Parse

variable {s : Settings} {source : String} {c : Cursor}

/-- A cursor at the beginning of a line has all tokens of the line before it. -/
theorem holds_ofText (source : String) (capacity : Nat) (h : 0 < capacity) :
    Ahead (Cursor.Holds source capacity (tokenize source).length) (.ofText source capacity h)
      (tokenize source) := by
  refine ⟨⟨.start, Cursor.shows_ofText source capacity h, Nat.zero_le _, Nat.zero_add _, rfl⟩, ?_⟩
  intro hnil
  have hlast := (tiles_tokenize source).getLast?_eq
  rw [hnil] at hlast
  cases hlast

/-- The cursor that is granted has the capacity that was asked for. -/
theorem ofText?_eq_ok {capacity : Nat} (h : 0 < capacity)
    (hc : Cursor.ofText? source capacity = .ok c) : c = .ofText source capacity h := by
  unfold Cursor.ofText? at hc
  split_ifs at hc with hpos hle
  exact (Except.ok.inj hc).symm

/-- A cursor is granted for one line if it is granted for another one. -/
theorem le_capacityLimit {capacity : Int} (hc : Cursor.ofText? source capacity = .ok c) :
    capacity ≤ Cursor.capacityLimit := by
  unfold Cursor.ofText? at hc
  split_ifs at hc with hpos hle
  exact hle

/-- A line is parsed only if a cursor is granted. -/
theorem exists_cursor {b : Bindings} {e : Expr} (h : parse s b source = .ok e) :
    ∃ c, Cursor.ofText? source s.capacity = .ok c := by
  obtain ⟨c, hc, -⟩ := bind_eq_ok_iff.1 h
  exact ⟨c, hc⟩

/-- The parser of a line ends as the parser on the list of its tokens. -/
theorem parseFrom_ofText_agrees (source : String) (capacity : Nat) (h : 0 < capacity)
    (bound : String → Bool) :
    Agrees (Cursor.Holds source capacity (tokenize source).length)
      (lineOf (Cursor.twice capacity) bound (tokenize source))
      (parseFrom bound (Cursor.ofText source capacity h)) :=
  parseFrom_agrees (Cursor.rereads h (Nat.le_refl _)) (holds_ofText source capacity h)

theorem parse_eq_lineOf (hc : Cursor.ofText? source s.capacity = .ok c) (b : Bindings) :
    parse s b source =
      (lineOf (Cursor.twice s.capacity) b.contains (tokenize source)).map Prod.fst := by
  rw [parse, hc, ofText?_eq_ok s.capacity_pos hc]
  exact (parseFrom_ofText_agrees source s.capacity s.capacity_pos b.contains).fst_eq

/-- Whatever the capacity, a line that is parsed is derived by the grammar. -/
theorem line_of_parse {b : Bindings} {e : Expr} (h : parse s b source = .ok e) :
    Grammar.Line b.contains (tokenize source) e := by
  obtain ⟨c, hc⟩ := exists_cursor h
  rw [parse_eq_lineOf hc] at h
  cases hline : lineOf (Cursor.twice s.capacity) b.contains (tokenize source) with
  | error f =>
    rw [hline] at h
    cases h
  | ok p =>
    rw [hline] at h
    cases h
    exact (Grammar.line_of_lineOf (regular_tokenize source) hline).1

/-- A cursor of two tokens or more gives whatever the grammar derives. -/
theorem parse_of_line (hc : Cursor.ofText? source s.capacity = .ok c) (hcap : 2 ≤ s.capacity)
    {b : Bindings} {e : Expr} (h : Grammar.Line b.contains (tokenize source) e) :
    parse s b source = .ok e := by
  obtain ⟨r, hr⟩ := (Grammar.lineOf_eq_ok_iff (regular_tokenize source)).2 h
  rw [parse_eq_lineOf hc, Cursor.twice_of_le hcap, hr]
  rfl

/-- The parser accepts exactly the lines of the grammar and gives the one tree that the grammar gives
them, provided that its cursor keeps two tokens at least. -/
theorem parse_eq_ok_iff (hc : Cursor.ofText? source s.capacity = .ok c) (hcap : 2 ≤ c.capacity)
    (b : Bindings) :
    (∀ e, parse s b source = .ok e ↔ Grammar.Line b.contains (tokenize source) e) ∧
      ∀ e e', Grammar.Line b.contains (tokenize source) e →
        Grammar.Line b.contains (tokenize source) e' → e = e' := by
  rw [ofText?_eq_ok s.capacity_pos hc] at hcap
  have hcap' : 2 ≤ s.capacity := hcap
  exact ⟨fun e => ⟨line_of_parse, parse_of_line hc hcap'⟩,
    fun e e' => Grammar.line_unique (regular_tokenize source)⟩

/-- A minus sign with a number right behind it belongs to that number where a vector may go on, and is
an operator behind a chain. -/
theorem line_of_signs :
    Grammar.Line Bindings.empty.contains (tokenize "1-2 +/ -3")
      (.binary "-" (.unary "+/" (.literal (.value (.vector ⟨[1, -2], by decide⟩))))
        (.literal (.value (.int 3)))) :=
  ((parse_eq_ok_iff (s := .default) rfl (by decide) .empty).1 _).1 (by decide +kernel)

end VectorCalc.Expr
