import Mathlib
import VectorCalc.Proofs.Expr.Agreement
import VectorCalc.Proofs.Expr.Blame
import VectorCalc.Proofs.Expr.Recognition
import VectorCalc.Proofs.Expr.Refusal

/-!
# The few tokens that a cursor keeps

A cursor keeps a few tokens only, and a tape keeps all. The parser cannot tell them apart if the
cursor keeps two tokens at least, whatever steps the cursor has taken before. With one token it can,
but only at a lone minus sign (`Grammar.LoneMinus`). On the list of tokens the difference is the
parameter `twice`; here the results for lists are carried over to cursors.
-/

namespace VectorCalc.Expr

open Token Parse

variable {source : String} {bound : String → Bool} {capacity : Nat} {c : Cursor} {m : Marks}

/-! ## The end of a line -/

/-- A source at its end gives an empty line. -/
theorem parseFrom_of_eof {σ : Type} [Source σ] {s : σ} {t : Token} (hs : (Source.next s).1 = t)
    (ht : t.kind = .eof) : (parseFrom bound s).1 = .error (faultAt t .emptyLine []) := by
  have hword : Reader.nextWord s = (.ok t, (Source.next s).2) := by
    rw [Reader.run_nextWord, hs, if_neg (ne_of_kind ht (by decide))]
  rw [parseFrom, line, Reader.run_bind_of_ok hword, if_pos ht]
  rfl

theorem parseFrom_remaining_of_le {p : Nat} (hp : (tokenize source).length ≤ p) :
    (parseFrom bound (Tape.remaining source p)).1 =
      .error (faultAt (eof source.length) .emptyLine []) := by
  refine parseFrom_of_eof ?_ rfl
  show (Tape.next ⟨[], (tokenize source).drop p, eof source.length⟩).1 = _
  rw [List.drop_eq_nil_iff.2 hp]
  rfl

theorem parseFrom_cursor_of_le (hshows : c.Shows source capacity m)
    (hp : (tokenize source).length ≤ m.position) :
    (parseFrom bound c).1 = .error (faultAt (eof source.length) .emptyLine []) :=
  parseFrom_of_eof (hshows.next.1.trans (stream_of_le hp)) rfl

/-! ## Cursors that have moved -/

/-- On a tape that holds the rest of a line the parser ends as on the list of its tokens. -/
theorem tape_agrees {p : Nat} (hp : p < (tokenize source).length) :
    Agrees (Tape.Holds source) (lineOf Tape.twice bound ((tokenize source).drop p))
      (parseFrom bound (Tape.remaining source p)) := by
  refine parseFrom_agrees (Tape.rereads source) ⟨⟨rfl, List.drop_suffix _ _⟩, ?_⟩
  rw [ne_eq, List.drop_eq_nil_iff]
  exact Nat.not_le_of_lt hp

/-- A cursor inside a line ends as the list of the tokens from its place on. Meanwhile it scans no
further than to the end of the line. -/
theorem cursor_agrees (hcap : 0 < capacity) (hshows : c.Shows source capacity m)
    (hp : m.position < (tokenize source).length) :
    Agrees (Cursor.Holds source capacity (max m.scanned (tokenize source).length))
      (lineOf (Cursor.twice capacity) bound ((tokenize source).drop m.position))
      (parseFrom bound c) := by
  refine parseFrom_agrees (Cursor.rereads hcap (Nat.le_max_right _ _)) ⟨?_, ?_⟩
  · refine ⟨m, hshows, Nat.le_max_left _ _, ?_, rfl⟩
    rw [List.length_drop]
    omega
  · rw [ne_eq, List.drop_eq_nil_iff]
    exact Nat.not_le_of_lt hp

/-- A cursor of two tokens or more ends as a tape at the same place. -/
theorem parseFrom_eq_remaining (hcap : 2 ≤ capacity) (hshows : c.Shows source capacity m) :
    (parseFrom bound c).1 = (parseFrom bound (Tape.remaining source m.position)).1 := by
  by_cases hp : m.position < (tokenize source).length
  · rw [(cursor_agrees (Nat.lt_of_succ_lt hcap) hshows hp).fst_eq, (tape_agrees hp).fst_eq,
      Cursor.twice_of_le hcap]
  · have hle := Nat.le_of_not_lt hp
    rw [parseFrom_cursor_of_le hshows hle, parseFrom_remaining_of_le hle]

theorem Plain.of_agrees {σ : Type} {V : σ → List Token → Prop} {ts : List Token}
    {run : Except Fault Expr × σ} (he : Ended ts) (h : Agrees V (lineOf Tape.twice bound ts) run) :
    Plain run.1 := by
  intro f hf
  rw [h.fst_eq] at hf
  cases hline : lineOf Tape.twice bound ts with
  | error f' =>
    rw [hline] at hf
    cases hf
    exact plain_lineOf he f hline
  | ok p =>
    rw [hline] at hf
    cases hf

/-- No step back is refused on a tape. -/
theorem plain_remaining (p : Nat) : Plain (parseFrom bound (Tape.remaining source p)).1 := by
  by_cases hp : p < (tokenize source).length
  · have hended : Ended ((tokenize source).drop p) := by
      refine (ended_tokenize source).suffix (List.drop_suffix _ _) ?_
      rw [ne_eq, List.drop_eq_nil_iff]
      exact Nat.not_le_of_lt hp
    exact Plain.of_agrees hended (tape_agrees hp)
  · rw [parseFrom_remaining_of_le (Nat.le_of_not_lt hp)]
    intro f hf
    cases hf
    exact isRefusal_faultAt _ _ rfl

/-- Behind a line that has been parsed the cursor stands right behind its end token. -/
theorem shows_of_parseFrom (hcap : 0 < capacity) (hshows : c.Shows source capacity m) {e : Expr}
    (he : (parseFrom bound c).1 = .ok e) :
    ∃ n, (parseFrom bound c).2.Shows source capacity ⟨n, (tokenize source).length⟩ ∧
      n ≤ max m.scanned (tokenize source).length := by
  by_cases hp : m.position < (tokenize source).length
  · have hagrees : Agrees _ (lineOf (Cursor.twice capacity) bound _) (parseFrom bound c) :=
      cursor_agrees hcap hshows hp
    have hreg := (regular_tokenize source).suffix (List.drop_suffix m.position _)
    cases hline : lineOf (Cursor.twice capacity) bound ((tokenize source).drop m.position) with
    | error f =>
      rw [hline] at hagrees
      cases he.symm.trans hagrees
    | ok p =>
      obtain ⟨e', r⟩ := p
      obtain ⟨-, rfl⟩ := Grammar.line_of_lineOf hreg hline
      rw [hline] at hagrees
      obtain ⟨-, ⟨n, position⟩, hshows', hn, hposition, -⟩ := hagrees
      cases (show position = (tokenize source).length from hposition)
      exact ⟨n, hshows', hn⟩
  · rw [parseFrom_cursor_of_le hshows (Nat.le_of_not_lt hp)] at he
    cases he

/-- Behind a line that has been parsed from its beginning the cursor has nothing to be read again, and
its scanner stands at the end of the line. -/
theorem index_of_parseFrom (h : 0 < capacity) {e : Expr}
    (he : (parseFrom bound (Cursor.ofText source capacity h)).1 = .ok e) :
    (parseFrom bound (Cursor.ofText source capacity h)).2.pending = 0 ∧
      (parseFrom bound (Cursor.ofText source capacity h)).2.scanner.index = source.length := by
  obtain ⟨n, hshows, hn⟩ := shows_of_parseFrom h (Cursor.shows_ofText source capacity h) he
  have hsum := hshows.pending_eq
  have hscanned : n ≤ (tokenize source).length := hn.trans (max_le (Nat.zero_le _) (Nat.le_refl _))
  dsimp only at hsum
  -- the marks are squeezed between the place read last and the furthest token scanned
  refine ⟨by omega, ?_⟩
  have hn : n = (tokenize source).length := by omega
  rw [hshows.scanner_eq]
  exact ((Scanner.on_ofText source).skip _).index_of_nil (Scanner.rest_skip_of_le hn.ge)

/-! ## Cursors of one token -/

theorem tape_eq_lineOf :
    (parseFrom bound (Tape.ofText source)).1 =
      (lineOf Tape.twice bound (tokenize source)).map Prod.fst := by
  have hpos : 0 < (tokenize source).length :=
    List.length_pos_of_ne_nil (holds_ofText source 1 Nat.one_pos).2
  exact (tape_agrees hpos).fst_eq

/-- A cursor of one token ends as a tape, or it is stopped at a lone minus sign. -/
theorem parseFrom_of_one (h : 0 < 1) :
    (parseFrom bound (Cursor.ofText source 1 h)).1 = (parseFrom bound (Tape.ofText source)).1 ∨
      ∃ a, Grammar.LoneMinus bound (tokenize source) a ∧
        (parseFrom bound (Cursor.ofText source 1 h)).1 = .error (Cursor.refusal a) := by
  rw [(parseFrom_ofText_agrees source 1 h bound).fst_eq, tape_eq_lineOf]
  rcases Grammar.lineOf_sameUnless (regular_tokenize source) with hsame | ⟨a, f, hlone, ha, hline⟩
  · left
    rw [hsame]
  · right
    rw [Cursor.refusal_of_twice ha] at hline
    refine ⟨a, hlone, ?_⟩
    rw [hline]
    rfl

/-- Where there is a lone minus sign, a cursor of one token is stopped. -/
theorem refusal_of_loneMinus (h : 0 < 1) {a : Token}
    (hlone : Grammar.LoneMinus bound (tokenize source) a) :
    ∃ a', (parseFrom bound (Cursor.ofText source 1 h)).1 = .error (Cursor.refusal a') := by
  have ha : Cursor.twice 1 a = .error (Cursor.refusal a) := if_neg (by decide)
  obtain ⟨a', f, ha', hline⟩ := Grammar.refused_lineOf (regular_tokenize source) hlone ha
  refine ⟨a', ?_⟩
  rw [(parseFrom_ofText_agrees source 1 h bound).fst_eq, hline, Cursor.refusal_of_twice ha']
  rfl

/-! ## What the parser shows of its cursor -/

/-- The parser does not show how many tokens its cursor keeps, as long as these are two at least:
whatever steps the cursor has taken, the parser ends as on a tape with the tokens from its place on,
and no step back is refused. Behind a line that has been parsed the cursor stands right behind its end
token. A cursor of one token at the beginning of a line is refused a step back if the line is a chain
with a lone minus sign, and otherwise ends as a tape too. -/
theorem parseFrom_cursor (h : 0 < capacity) (steps : List Move) {outcome : Except Fault Expr}
    {c' : Cursor}
    (hrun : parseFrom bound (Cursor.ofMoves source capacity h steps) = (outcome, c')) :
    (2 ≤ capacity →
      outcome =
          (parseFrom bound
            (Tape.remaining source (Marks.ofMoves source capacity steps).position)).1 ∧
        (∀ f, outcome = .error f → f.isRefusal = false) ∧
        ∀ e, outcome = .ok e →
          (∃ n, c'.Shows source capacity ⟨n, (tokenize source).length⟩) ∧
            (steps = [] → c'.pending = 0 ∧ c'.scanner.index = source.length)) ∧
    (capacity = 1 → steps = [] →
      ((∃ a, Grammar.LoneMinus bound (tokenize source) a) →
        ∃ a, Grammar.LoneMinus bound (tokenize source) a ∧
          outcome = .error (Cursor.refusal a)) ∧
      ((∀ a, ¬ Grammar.LoneMinus bound (tokenize source) a) →
        outcome = (parseFrom bound (Tape.ofText source)).1 ∧
          ∀ f, outcome = .error f → f.isRefusal = false)) := by
  have hshows := Cursor.shows_moves source capacity h steps
  have houtcome : outcome = (parseFrom bound (Cursor.ofMoves source capacity h steps)).1 := by
    rw [hrun]
  have hcursor : c' = (parseFrom bound (Cursor.ofMoves source capacity h steps)).2 := by
    rw [hrun]
  rw [houtcome, hcursor]
  refine ⟨fun hcap => ⟨parseFrom_eq_remaining hcap hshows, ?_, fun e he => ⟨?_, ?_⟩⟩, ?_⟩
  · rw [parseFrom_eq_remaining hcap hshows]
    exact plain_remaining _
  · -- how far the cursor has scanned depends on the steps before
    obtain ⟨n, hn, -⟩ := shows_of_parseFrom h hshows he
    exact ⟨n, hn⟩
  · rintro rfl
    exact index_of_parseFrom h he
  · rintro rfl rfl
    have hplain : Plain (parseFrom bound (Tape.ofText source)).1 := plain_remaining 0
    refine ⟨fun ⟨a, hlone⟩ => ?_, fun hnone => ?_⟩
    · obtain ⟨a', hrefused⟩ := refusal_of_loneMinus h hlone
      rcases parseFrom_of_one h with htape | hstopped
      · -- a tape would not have been refused the step back
        have hfalse := hplain (Cursor.refusal a') (htape.symm.trans hrefused)
        cases hfalse
      · exact hstopped
    · rcases parseFrom_of_one h with htape | ⟨a, hlone, -⟩
      · refine ⟨htape, ?_⟩
        show Plain (parseFrom bound (Cursor.ofText source 1 h)).1
        rw [htape]
        exact hplain
      · exact absurd hlone (hnone a)

/-- In `1 - 2` the minus sign is an operator. A cursor of two tokens that has read the first token and
stepped back gives the difference; a cursor of one token is stopped at the space before the `2`. -/
theorem parseFrom_difference :
    (parseFrom (fun _ => false) (Cursor.ofMoves "1 - 2" 2 (by decide) [.next, .retract])).1 =
        (parseFrom (fun _ => false) (Tape.remaining "1 - 2" 0)).1 ∧
      ∃ a, (parseFrom (fun _ => false) (Cursor.ofMoves "1 - 2" 1 (by decide) [])).1 =
        .error (Cursor.refusal a) := by
  have htokens : tokenize "1 - 2" =
      [⟨.number, "1", 0, 1⟩, ⟨.space, " ", 1, 2⟩, ⟨.operator, "-", 2, 3⟩, ⟨.space, " ", 3, 4⟩,
        ⟨.number, "2", 4, 5⟩, eof 5] := by
    decide +kernel
  have hlone : Grammar.LoneMinus (fun _ => false) (tokenize "1 - 2") ⟨.space, " ", 3, 4⟩ := by
    rw [htokens]
    have hone : Numeral false ⟨.number, "1", 0, 1⟩ 1 := ⟨by decide, by decide⟩
    exact ⟨_, .none _,
      .first (.literal (.plain rfl _) hone (Grammar.items_done rfl) (.space rfl _) ⟨rfl, rfl⟩
        (by decide))⟩
  refine ⟨((parseFrom_cursor (by decide) _ Prod.mk.eta.symm).1 (by decide)).1, ?_⟩
  obtain ⟨a, -, ha⟩ :=
    ((parseFrom_cursor (by decide) [] Prod.mk.eta.symm).2 rfl rfl).1 ⟨_, hlone⟩
  exact ⟨a, ha⟩

end VectorCalc.Expr
