import Mathlib
import VectorCalc.Proofs.Machine.Atomic
import VectorCalc.Proofs.Token.Words

/-!
# Printed values read back

A value is printed as its integers in decimal with single spaces between them. Given to the machine as
a line, the printed value is parsed as a literal and evaluates to itself, and nothing changes. The one
thing that is lost is whether an integer was a vector of one item (`Value.collapsed`).

The text of a value is a line of words, one for each integer (`Lexeme.ofInt`), so it is cut into their
lexemes. On their tokens the grammar derives the numbers one by one. The parser looks for a number
behind the last one and finds the end of the line, so it steps back once at most: a cursor of any
capacity will do.
-/

namespace VectorCalc

/-- A value as it is read back: a vector of one item becomes the integer that it holds. -/
def Value.collapsed : Value → Value
  | .int n => .int n
  | .vector v =>
    match v.toList with
    | [n] => .int n
    | _ => .vector v

namespace Token.Lexeme

/-! ## The lexemes of integers -/

/-- A minus sign. -/
def minus : Lexeme := ⟨.operator, "-"⟩

/-- A number without a sign, in decimal. -/
def ofNat (n : Nat) : Lexeme := ⟨.number, n.repr⟩

/-- An integer in decimal. -/
def ofInt : Int → List Lexeme
  | .ofNat n => [ofNat n]
  | .negSucc n => [minus, ofNat (n + 1)]

/-- Integers in decimal, each with a space in front of it. -/
def spacedInts (ns : List Int64) : List Lexeme := ns.flatMap fun n => gap :: ofInt n.toInt

theorem spelled_minus : minus.Spelled := .operator (by decide)

theorem spelled_ofNat (n : Nat) : (ofNat n).Spelled := by
  obtain ⟨c, cs, hcs⟩ := List.exists_cons_of_ne_nil (Nat.toDigits_ne_nil (n := n) (b := 10))
  rw [Spelled, ofNat, Nat.toList_repr, hcs]
  refine .number fun d hd => ?_
  rw [← hcs] at hd
  exact Nat.isDigit_of_mem_toDigits (by decide) (by decide) hd

theorem spelled_ofInt (x : Int) : ∀ p ∈ ofInt x, p.Spelled := by
  cases x with
  | ofNat n => simp [ofInt, spelled_ofNat]
  | negSucc n => simp [ofInt, spelled_ofNat, spelled_minus]

theorem not_runsOn_minus (q : Lexeme) : ¬ RunsOn minus q := by
  intro h
  cases h with
  | spaces hp | numbers hp | word hp | plus hp | star hp => exact absurd hp (by decide)

/-- An integer is a word. -/
theorem isWord_ofInt (x : Int) : IsWord (ofInt x) where
  ne_nil := by cases x <;> exact List.cons_ne_nil _ _
  spelled := spelled_ofInt x
  filled := by
    cases x with
    | ofNat n => simp [ofInt, ofNat]
    | negSucc n => simp [ofInt, ofNat, minus]
  apart := by
    cases x with
    | ofNat n => exact .singleton _
    | negSucc n => exact .cons_cons (not_runsOn_minus _) (.singleton _)

/-- The words of integers with spaces between them. -/
theorem spaced_ofInt (n : Int64) (ns : List Int64) :
    spaced ((n :: ns).map fun k => ofInt k.toInt) = ofInt n.toInt ++ spacedInts ns := by
  induction ns generalizing n with
  | nil => rw [List.map_singleton, spaced_singleton, spacedInts, List.flatMap_nil, List.append_nil]
  | cons m ns ih =>
    have hrest := ih m
    rw [List.map_cons] at hrest ⊢
    rw [List.map_cons, spaced_cons_cons, hrest]
    rfl

/-! ## The text of integers -/

theorem join_ofInt (x : Int) : String.join ((ofInt x).map text) = toString x := by
  cases x with
  | ofNat n =>
    rw [ofInt, List.map_singleton, String.join_cons, String.join_nil, String.append_empty]
    rfl
  | negSucc n =>
    rw [ofInt, List.map_cons, List.map_singleton, String.join_cons, String.join_cons,
      String.join_nil, String.append_empty]
    rfl

/-- The lexemes of some integers are a reading of their text. -/
theorem reading_spacedInts (n : Int64) (ns : List Int64) :
    Reading (" ".intercalate ((n :: ns).map Value.decimal)) (ofInt n.toInt ++ spacedInts ns) := by
  have hwords : ∀ w ∈ (n :: ns).map fun k => ofInt k.toInt, IsWord w := by
    intro w hw
    obtain ⟨k, -, rfl⟩ := List.mem_map.1 hw
    exact isWord_ofInt k.toInt
  have hreading := reading_spaced hwords
  rw [spaced_ofInt, List.map_map] at hreading
  have htext : (fun w => String.join (List.map text w)) ∘ (fun k : Int64 => ofInt k.toInt) =
      Value.decimal := funext fun k => join_ofInt k.toInt
  rw [htext] at hreading
  exact hreading

end Token.Lexeme

namespace Expr.Grammar

open Token Parse

variable {ts : List Token} {rest : List Lexeme}

/-! ## The numbers of a printed line -/

/-- The digits of a number in decimal denote it. -/
theorem numeral_of_decimal {negative : Bool} {token : Token} {k : Nat} {n : Int64}
    (htext : token.text = k.repr) (hn : n.toInt = if negative then -(k : Int) else k) :
    Numeral negative token n := by
  have hdigits : token.text.toList = Nat.toDigits 10 k := by
    rw [htext, Nat.toList_repr]
  have hvalue : Nat.ofDigitChars 10 (Nat.toDigits 10 k) 0 = k :=
    Nat.ofDigitChars_toDigits (by decide) (by decide)
  refine ⟨?_, ?_⟩
  · rw [hdigits]
    have hk : k ≤ 2 ^ 63 := by
      have hmin := n.le_toInt
      have hmax := n.toInt_lt
      split at hn <;> omega
    have hlt : k < 10 ^ significantLimit := hk.trans_lt (by decide)
    exact (Nat.toDigits_length 10 k significantLimit (by decide) hlt).trans (by decide)
  · rw [valueOf, hdigits, hvalue, hn]

/-- The first lexeme is that of the first token. -/
theorem token_of_lexemes {kind : Kind} {x : String} (h : ts.map lexeme = ⟨kind, x⟩ :: rest) :
    ∃ t us, ts = t :: us ∧ t.kind = kind ∧ t.text = x ∧ us.map lexeme = rest := by
  obtain ⟨t, us, hts, ht, hus⟩ := List.map_eq_cons_iff.1 h
  obtain ⟨hkind, htext⟩ := Lexeme.mk.inj ht
  exact ⟨t, us, hts, hkind, htext, hus⟩

theorem gap_of_lexemes (h : ts.map lexeme = Lexeme.gap :: rest) :
    ∃ us, Gap ts us ∧ us.map lexeme = rest := by
  obtain ⟨t, us, rfl, hkind, -, hus⟩ := token_of_lexemes h
  exact ⟨us, .space hkind us, hus⟩

/-- The tokens of a printed integer are a signed number that denotes it. -/
theorem signed_of_lexemes {n : Int64} (h : ts.map lexeme = Lexeme.ofInt n.toInt ++ rest) :
    ∃ negative token us, Signed ts negative token us ∧ Numeral negative token n ∧
      us.map lexeme = rest := by
  cases hn : n.toInt with
  | ofNat k =>
    rw [hn] at h
    obtain ⟨token, us, rfl, hkind, htext, hus⟩ := token_of_lexemes h
    exact ⟨false, token, us, .plain hkind us, numeral_of_decimal htext (by rw [hn]; rfl), hus⟩
  | negSucc k =>
    rw [hn] at h
    obtain ⟨m, vs, rfl, hmkind, hmtext, hvs⟩ := token_of_lexemes h
    obtain ⟨token, us, rfl, hkind, htext, hus⟩ := token_of_lexemes hvs
    exact ⟨true, token, us, .negated ⟨hmkind, hmtext⟩ hkind us,
      numeral_of_decimal htext (by rw [hn]; rfl), hus⟩

/-- The tokens of further printed integers are the items of a vector, if no number follows. -/
theorem items_of_lexemes {ns : List Int64} (h : ts.map lexeme = Lexeme.spacedInts ns ++ rest)
    (hrest : ∀ us : List Token, us.map lexeme = rest → signed? (skipSpace us) = none) :
    ∃ us, Items ts ns us ∧ us.map lexeme = rest := by
  induction ns generalizing ts with
  | nil => exact ⟨ts, items_done (hrest ts h), h⟩
  | cons n ns ih =>
    rw [Lexeme.spacedInts, List.flatMap_cons, List.cons_append, List.cons_append,
      List.append_assoc] at h
    obtain ⟨us, hgap, hus⟩ := gap_of_lexemes h
    obtain ⟨negative, token, vs, hsigned, hn, hvs⟩ := signed_of_lexemes hus
    obtain ⟨ws, hitems, hws⟩ := ih hvs
    exact ⟨ws, .more hgap hsigned hn hitems, hws⟩

/-- The lexeme of the end is that of an end token. -/
theorem eof_of_lexemes (h : ts.map lexeme = [.final]) : ∃ z, ts = [z] ∧ z.kind = .eof := by
  obtain ⟨z, rfl, hz⟩ := List.map_eq_singleton_iff.1 h
  exact ⟨z, rfl, congrArg Lexeme.kind hz⟩

/-- At the end there is no number. -/
theorem signed?_of_final (h : ts.map lexeme = [.final]) : signed? (skipSpace ts) = none := by
  obtain ⟨z, rfl, hkind⟩ := eof_of_lexemes h
  rw [skipSpace_of_ne (ne_of_kind hkind (by decide))]
  simp [signed?, isMinus, hkind]

/-- The tokens of printed integers are parsed as their literal, whether or not two steps back in a row
are granted. -/
theorem lineOf_of_lexemes {twice : Token → Except Fault Unit} {bound : String → Bool} {n : Int64}
    {ns : List Int64} (hreg : Regular ts)
    (h : ts.map lexeme = Lexeme.ofInt n.toInt ++ (Lexeme.spacedInts ns ++ [Lexeme.final])) :
    lineOf twice bound ts = .ok (ofNumbers n ns, []) := by
  obtain ⟨negative, token, us, hsigned, hn, hus⟩ := signed_of_lexemes h
  obtain ⟨vs, hitems, hvs⟩ := items_of_lexemes hus fun _ => signed?_of_final
  obtain ⟨z, rfl, hz⟩ := eof_of_lexemes hvs
  have hnumber := (hsigned.numeral hreg).2 hn
  have hterm : termOf twice bound ts = .ok (ofNumbers n ns, [z]) := by
    rw [termOf_of_signed hsigned hnumber, numbersOf_of_items (hreg.suffix hsigned.suffix) hitems,
      skipSpace_of_ne (ne_of_kind hz (by decide))]
    rfl
  obtain ⟨t, after, rfl, heof, hspace, hname⟩ := hsigned.first
  rw [lineOf_of_chain hreg.tail (skipSpace_of_ne hspace after) heof (fun hi => absurd hi hname),
    chainFrom, hterm]
  show (chainOf twice bound (ofNumbers n ns) [z] >>= _) = _
  rw [chainOf_of_ne (skipSpace_of_ne (ne_of_kind hz (by decide)) []) (ne_of_kind hz (by decide))]
  show (endOf [z] >>= _) = _
  rw [endOf_of_eof hz]
  rfl

end Expr.Grammar

/-! ## Values -/

/-- The literal of the integers of a value is the value as it is read back. -/
theorem Expr.Grammar.literal_of_toList {v : Value} {n : Int64} {ns : List Int64}
    (h : v.toList = n :: ns) : Literal (n :: ns) v.collapsed := by
  cases v with
  | int m =>
    cases h
    exact .number n
  | vector v =>
    obtain ⟨items, hne⟩ := v
    cases (show items = n :: ns from h)
    cases ns with
    | nil => exact .number n
    | cons m ns => exact .several n m ns

theorem Value.toList_ne_nil (v : Value) : v.toList ≠ [] := by
  cases v with
  | int n => exact List.cons_ne_nil _ _
  | vector v => exact v.ne_nil

/-- A printed value is parsed as its literal by a cursor of any capacity. -/
theorem Expr.parse_text {s : Settings} {v : Value} {c : Token.Cursor}
    (hc : Token.Cursor.ofText? v.text s.capacity = .ok c) (b : Bindings) :
    Expr.parse s b v.text = .ok (.literal (.value v.collapsed)) := by
  obtain ⟨n, ns, hns⟩ := List.exists_cons_of_ne_nil v.toList_ne_nil
  have hreading := Token.Lexeme.reading_spacedInts n ns
  rw [← hns] at hreading
  have htokens := Token.lexemes_of_reading hreading
  rw [List.append_assoc] at htokens
  have hline : Parse.lineOf (Token.Cursor.twice s.capacity) b.contains (Token.tokenize v.text) =
      .ok (Parse.ofNumbers n ns, []) :=
    Grammar.lineOf_of_lexemes (Token.regular_tokenize v.text) htokens
  rw [Expr.parse_eq_lineOf hc, hline, Grammar.ofNumbers_eq_iff.2 (Grammar.literal_of_toList hns)]
  rfl

/-- A printed value is read back: it is parsed as its literal, and as a line it gives the value and
changes nothing on the machine. Whatever the capacity of cursors, it need only be granted. -/
theorem Machine.evaluateLine_text {s : Settings}
    (hcap : (s.capacity : Int) ≤ Token.Cursor.capacityLimit) (v : Value) (m : Machine) :
    Expr.parse s m.bindings v.text = .ok (.literal (.value v.collapsed)) ∧
      m.evaluateLine s v.text = (.ok v.collapsed, m) := by
  have hparse := Expr.parse_text (Token.Cursor.ofText?_of_le v.text s.capacity_pos hcap) m.bindings
  refine ⟨hparse, ?_⟩
  rcases Run.parse_cases s v.text m with ⟨e, he, hrun⟩ | ⟨f, m', hf, -, -⟩
  · cases he.symm.trans hparse
    rw [Machine.evaluateLine_of_parse hrun]
    rfl
  · cases hf.symm.trans hparse

/-- The least integer is printed and read back with its sign, alone and in a vector, and a vector of
one item comes back as an integer. -/
theorem Machine.evaluateLine_least :
    Machine.new.evaluateLine .default "-9223372036854775808 0 -7" =
        (.ok (.vector ⟨[Int64.minValue, 0, -7], List.cons_ne_nil _ _⟩), .new) ∧
      Machine.new.evaluateLine .default "-9223372036854775808" =
        (.ok (.int Int64.minValue), .new) := by
  have hcap : (Settings.default.capacity : Int) ≤ Token.Cursor.capacityLimit := by decide
  exact ⟨(evaluateLine_text hcap (.vector ⟨[Int64.minValue, 0, -7], List.cons_ne_nil _ _⟩) .new).2,
    (evaluateLine_text hcap (.vector ⟨[Int64.minValue], List.cons_ne_nil _ _⟩) .new).2⟩

end VectorCalc
