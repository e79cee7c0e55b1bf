import VectorCalc.Proofs.Machine.Printed
import VectorCalc.Proofs.Shell.Endurance
import VectorCalc.Value.Offered

/-!
# The range of numbers

A number is refused if it does not fit into a word. Long numbers are refused by their length alone,
and that is right for every number with more than `significantLimit` digits behind its zeros. But a
number is not computed if it has more than `Text.digitLimit` digits, the zeros among them. So where
such a number has few digits behind its zeros, its length is reported, whether or not it fits
(`number_by_range`); a number that does not fit is then not reported as such (`number_of_nines`).

All this is said of the token of a number. A line that consists of it, with or without a minus sign,
is parsed as the number or has its fault (`parse_signed`).
-/

namespace VectorCalc.Expr

open Token Parse

/-- Digits with a minus sign in front of them, if the number is negative. -/
def signed (negative : Bool) (digits : String) : String :=
  if negative then "-" ++ digits else digits

/-! ## Lines of one number -/

section

variable {negative : Bool} {digits : String} {t z : Token}

/-- The lexemes of a number. -/
theorem reading_signed (negative : Bool) (h : Spells .number digits.toList) :
    Reading (signed negative digits)
      ((if negative then [Lexeme.minus] else []) ++ [⟨.number, digits⟩]) := by
  have hspelled : Lexeme.Spelled ⟨.number, digits⟩ := h
  cases negative with
  | false =>
    refine ⟨fun p hp => ?_, .singleton _, by simp [signed]⟩
    rw [List.mem_singleton.1 hp]
    exact hspelled
  | true =>
    refine ⟨fun p hp => ?_, .cons_cons (Lexeme.not_runsOn_minus _) (.singleton _), ?_⟩
    · rcases List.mem_cons.1 hp with rfl | hp
      · exact Lexeme.spelled_minus
      · rw [List.mem_singleton.1 hp]
        exact hspelled
    · simp [signed, Lexeme.minus]

/-- A line of one number has its token and the end, behind a minus sign if there is one. -/
theorem tokenize_signed (negative : Bool) (h : Spells .number digits.toList) :
    ∃ t z, t.kind = .number ∧ t.text = digits ∧ z.kind = .eof ∧
      ∃ front, tokenize (signed negative digits) = front ++ [t, z] ∧
        (negative = false ∧ front = [] ∨
          negative = true ∧ ∃ m, isMinus m = true ∧ front = [m]) := by
  have hlexemes := lexemes_of_reading (reading_signed negative h)
  cases negative with
  | false =>
    obtain ⟨t, ts, htokens, hkind, htext, hts⟩ := Grammar.token_of_lexemes hlexemes
    obtain ⟨z, rfl, hz⟩ := Grammar.eof_of_lexemes hts
    exact ⟨t, z, hkind, htext, hz, [], htokens, .inl ⟨rfl, rfl⟩⟩
  | true =>
    obtain ⟨m, us, htokens, hmkind, hmtext, hus⟩ := Grammar.token_of_lexemes hlexemes
    obtain ⟨t, ts, rfl, hkind, htext, hts⟩ := Grammar.token_of_lexemes hus
    obtain ⟨z, rfl, hz⟩ := Grammar.eof_of_lexemes hts
    have hminus : isMinus m = true := by
      rw [isMinus, hmkind, hmtext]
      rfl
    exact ⟨t, z, hkind, htext, hz, [m], htokens, .inr ⟨rfl, m, hminus, rfl⟩⟩

/-- At the end of a line there are no further numbers. -/
theorem numbersOf_of_eof {twice : Token → Except Fault Unit} (hz : z.kind = .eof) :
    numbersOf twice [z] = .ok ([], [z]) := by
  have hskip : skipSpace [z] = [z] := skipSpace_of_ne (ne_of_kind hz (by decide)) []
  have hnone : signed? (skipSpace [z]) = none := by
    rw [hskip]
    simp [signed?, isMinus, hz]
  rw [numbersOf_of_none hnone, hskip]
  rfl

/-- A literal at the end of a line closes it. -/
theorem closeOf_of_eof {twice : Token → Except Fault Unit} {bound : String → Bool} (e : Expr)
    (hz : z.kind = .eof) : closeOf twice bound e [z] = .ok (e, []) := by
  have hskip : skipSpace [z] = [z] := skipSpace_of_ne (ne_of_kind hz (by decide)) []
  rw [closeOf, chainOf_of_ne hskip (ne_of_kind hz (by decide))]
  show (endOf [z] >>= _) = _
  rw [Grammar.endOf_of_eof hz]
  rfl

/-- A line of one number is parsed as that number, or has its fault. -/
theorem lineOf_signed {twice : Token → Except Fault Unit} {bound : String → Bool}
    {front : List Token} (ht : t.kind = .number) (hz : z.kind = .eof)
    (hfront : negative = false ∧ front = [] ∨
      negative = true ∧ ∃ m, isMinus m = true ∧ front = [m]) :
    lineOf twice bound (front ++ [t, z]) =
      number negative t >>= fun n => .ok (.literal (.value (.int n)), []) := by
  obtain ⟨u, us, hus, hopens, hsigned⟩ : ∃ u us, front ++ [t, z] = u :: us ∧ OpensLiteral u ∧
      signedOf (u :: us) = number negative t >>= fun n => .ok (n, [z]) := by
    rcases hfront with ⟨rfl, rfl⟩ | ⟨rfl, m, hm, rfl⟩
    · exact ⟨t, [z], rfl, .inl ht, signedOf_of_number ht⟩
    · exact ⟨m, [t, z], rfl, .inr hm, (signedOf_of_minus hm).trans (negativeOf_of_number ht)⟩
  have hkind : u.kind ≠ .space ∧ u.kind ≠ .eof ∧ u.kind ≠ .identifier := by
    rcases hopens with hu | hu
    · exact ⟨ne_of_kind hu (by decide), ne_of_kind hu (by decide), ne_of_kind hu (by decide)⟩
    · have hop := kind_of_isMinus hu
      exact ⟨ne_of_kind hop (by decide), ne_of_kind hop (by decide), ne_of_kind hop (by decide)⟩
  rw [hus, lineOf, skipSpace_of_ne hkind.1]
  dsimp only
  rw [if_neg hkind.2.1, if_neg hkind.2.2, termOf_of_literal hopens, hsigned]
  cases number negative t with
  | error f => rfl
  | ok n =>
    show (numbersOf twice [z] >>= _) >>= _ = _
    rw [numbersOf_of_eof hz]
    exact closeOf_of_eof (.literal (.value (.int n))) hz

end

/-- A line of digits, with or without a minus sign, has the outcome of its number. -/
theorem parse_signed {s : Settings} (hcap : (s.capacity : Int) ≤ Cursor.capacityLimit)
    (b : Bindings) (negative : Bool) {digits : String} (h : Spells .number digits.toList) :
    ∃ t ∈ tokenize (signed negative digits), t.kind = .number ∧ t.text = digits ∧
      parse s b (signed negative digits) =
        (number negative t).map fun n => .literal (.value (.int n)) := by
  obtain ⟨t, z, hkind, htext, hz, front, htokens, hfront⟩ := tokenize_signed negative h
  refine ⟨t, by simp [htokens], hkind, htext, ?_⟩
  rw [parse_eq_lineOf (Cursor.ofText?_of_le _ s.capacity_pos hcap), htokens,
    lineOf_signed hkind hz hfront]
  cases number negative t <;> rfl

/-! ## The number of a token -/

section

variable {negative : Bool} {t : Token}

theorem spells_number (hne : t.text.toList ≠ []) (hd : ∀ c ∈ t.text.toList, c.isDigit = true) :
    Spells .number t.text.toList := by
  obtain ⟨c, cs, hcs⟩ := List.exists_cons_of_ne_nil hne
  rw [hcs] at hd ⊢
  exact .number hd

theorem faultAt_of_number (hkind : t.kind = .number) (problem : Problem) (expected : List String) :
    faultAt t problem expected = .malformed problem (spanOf t) expected (some (shownToken t)) :=
  if_neg (ne_of_kind hkind (by decide))

/-- A number that does not fit is reported as such, unless it is too long to be computed. -/
theorem number_of_not_fits (hkind : t.kind = .number) (h : ¬ fitsWord (valueOf negative t) = true)
    (hlong : ¬ Overlong t) : number negative t = .error (faultAt t .numberOutOfRange []) := by
  rw [number_eq]
  split_ifs with hsig hlen
  · rfl
  · exact absurd ⟨hkind, hlen, Nat.le_of_not_lt hsig⟩ hlong
  · rfl

/-- The number of digits is reported of a number too long to be computed, and of no other. -/
theorem number_eq_digits_iff (hkind : t.kind = .number) :
    number negative t = .error (.outOfDomain (.digits t.text.toList.length)) ↔ Overlong t := by
  rw [number_eq, faultAt_of_number hkind, Overlong]
  split_ifs with hsig hlen hfits
  · simp [Nat.not_le.2 hsig]
  · simp [hkind, hlen, Nat.le_of_not_lt hsig]
  · simp [hlen]
  · simp [hlen]

/-- A number that fits and is not too long is the word that its integer is for a host. -/
theorem number_of_fits (hd : ∀ c ∈ t.text.toList, c.isDigit = true)
    (h : fitsWord (valueOf negative t) = true) (hlen : t.text.toList.length ≤ Text.digitLimit) :
    ∃ w : Int64, number negative t = .ok w ∧ w.toInt = valueOf negative t ∧
      Host.toInt64 (.number (valueOf negative t)) = .ok w := by
  have hw := ofInt_eq_iff.1 ⟨h, rfl⟩
  exact ⟨_, (number_eq_ok_iff hd).2 ⟨hlen, hw⟩, hw, if_pos h⟩

/-- A number never has the fault of an integer that a host offers. -/
theorem number_ne_integer (hkind : t.kind = .number) (x : Int) :
    number negative t ≠ .error (.outOfDomain (.integer x)) := by
  rw [number_eq, faultAt_of_number hkind]
  split_ifs <;> exact fun h => nomatch h

end

/-- A number is read if it fits and is not too long. It is out of range if it does not fit, unless
it is too long with few digits behind its zeros. Then, and only then, its length is reported. A line
of the number alone has the same outcome. -/
theorem number_by_range (negative : Bool) {t : Token} (hkind : t.kind = .number)
    (hne : t.text.toList ≠ []) (hd : ∀ c ∈ t.text.toList, c.isDigit = true) :
    ((-2 ^ 63 ≤ valueOf negative t ∧ valueOf negative t ≤ 2 ^ 63 - 1) →
      t.text.toList.length ≤ Text.digitLimit →
        ∃ w : Int64, number negative t = .ok w ∧ w.toInt = valueOf negative t ∧
          Host.toInt64 (.number (valueOf negative t)) = .ok w) ∧
    (¬ (-2 ^ 63 ≤ valueOf negative t ∧ valueOf negative t ≤ 2 ^ 63 - 1) → ¬ Overlong t →
      number negative t =
        .error (.malformed .numberOutOfRange (spanOf t) [] (some (shownToken t)))) ∧
    (number negative t = .error (.outOfDomain (.digits t.text.toList.length)) ↔ Overlong t) ∧
    (∀ x, number negative t ≠ .error (.outOfDomain (.integer x))) ∧
    ∀ (s : Settings) (b : Bindings), (s.capacity : Int) ≤ Cursor.capacityLimit →
      ∃ u ∈ tokenize (signed negative t.text), u.kind = .number ∧ u.text = t.text ∧
        parse s b (signed negative t.text) =
          (number negative u).map fun n => .literal (.value (.int n)) := by
  have hfits : fitsWord (valueOf negative t) = true ↔
      -2 ^ 63 ≤ valueOf negative t ∧ valueOf negative t ≤ 2 ^ 63 - 1 := by
    rw [fitsWord_iff]
    omega
  refine ⟨fun hrange hlen => number_of_fits hd (hfits.2 hrange) hlen, fun hrange hlong => ?_,
    number_eq_digits_iff hkind, number_ne_integer hkind,
    fun s b hcap => parse_signed hcap b negative (spells_number hne hd)⟩
  rw [number_of_not_fits hkind (mt hfits.1 hrange) hlong, faultAt_of_number hkind]

/-- The least word is read with its minus sign, and its digits alone are out of range. -/
theorem number_by_range_least :
    let t : Token := ⟨.number, "9223372036854775808", 1, 20⟩
    (∃ w : Int64, number true t = .ok w ∧ w.toInt = -2 ^ 63) ∧
      number false t =
        .error (.malformed .numberOutOfRange ⟨1, 20⟩ [] (some "NUMBER(9223372036854775808)")) := by
  intro t
  have hne : t.text.toList ≠ [] := by decide
  have hd : ∀ c ∈ t.text.toList, c.isDigit = true := List.all_eq_true.1 (by decide +kernel)
  have hlen : t.text.toList.length ≤ Text.digitLimit := by decide
  constructor
  · have hvalue : valueOf true t = -2 ^ 63 := by decide
    obtain ⟨w, hw, hint, -⟩ := (number_by_range true rfl hne hd).1 (by rw [hvalue]; decide) hlen
    exact ⟨w, hw, hint.trans hvalue⟩
  · have hvalue : valueOf false t = 2 ^ 63 := by decide
    exact (number_by_range false rfl hne hd).2.1 (by rw [hvalue]; decide) fun hlong =>
      Nat.not_lt.2 hlen hlong.2.1

/-- Nineteen nines behind 4282 zeros do not fit into a word, and are not reported as such. -/
theorem number_of_nines :
    let digits := String.ofList (List.replicate 4282 '0' ++ List.replicate 19 '9')
    let t : Token := ⟨.number, digits, 0, 4301⟩
    valueOf false t = 10 ^ 19 - 1 ∧ 2 ^ 63 - 1 < valueOf false t ∧
      number false t = .error (.outOfDomain (.digits 4301)) ∧
      number false t ≠
        .error (.malformed .numberOutOfRange (spanOf t) [] (some (shownToken t))) ∧
      parse .default .empty digits = .error (.outOfDomain (.digits 4301)) := by
  intro digits t
  have hdigits : digits.toList = List.replicate 4282 '0' ++ List.replicate 19 '9' :=
    String.toList_ofList
  have hd : ∀ c ∈ digits.toList, c.isDigit = true := by
    rw [hdigits]
    intro c hc
    rcases List.mem_append.1 hc with hc | hc <;> rw [List.eq_of_mem_replicate hc] <;> rfl
  have hlen : digits.toList.length = 4301 := by
    rw [hdigits, List.length_append, List.length_replicate, List.length_replicate]
  have hdrop : digits.toList.dropWhile (· = '0') = List.replicate 19 '9' := by
    have hzeros : ∀ c ∈ List.replicate 4282 '0', decide (c = '0') = true := fun c hc =>
      decide_eq_true (List.eq_of_mem_replicate hc)
    rw [hdigits, List.dropWhile_append_of_pos hzeros]
    rfl
  have hvalue : valueOf false t = 10 ^ 19 - 1 := by
    show (Nat.ofDigitChars 10 digits.toList 0 : Int) = _
    rw [← ofDigitChars_dropWhile, hdrop]
    decide
  have hnumber : number false t = .error (.outOfDomain (.digits 4301)) := by
    have hlong : Overlong t := ⟨rfl, by rw [hlen]; decide, by rw [hdrop]; decide⟩
    rw [(number_eq_digits_iff rfl).2 hlong, hlen]
  refine ⟨hvalue, by rw [hvalue]; decide, hnumber, ?_, ?_⟩
  · rw [hnumber]
    exact fun h => nomatch h
  · have hparse : parse .default .empty digits = _ :=
      parse_digits (by decide) hd (by rw [hlen]; decide) (by rw [hdrop]; decide)
    rw [hparse, hlen]

end VectorCalc.Expr
