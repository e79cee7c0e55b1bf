import Mathlib
import VectorCalc.Proofs.Token.Tiling

/-!
# Spelling of tokens

A token without its place is a lexeme: a kind and a text. `Spells` says how the lexemes of each kind
are spelled, and knows nothing of cutting. A list of lexemes is a reading of a line (`Reading`) if all
of them are spelled as their kinds demand, no two neighbours run together (`RunsOn`), and the line is
their texts side by side.

The facts below start from one token. What is cut from the front of a text is spelled as its kind
demands (`spells_first`) and cannot be longer (`stops_first`); a text that begins with a lexeme which
cannot be longer is cut right behind it (`first_of_spells`). From these it follows that each line has
one reading, and that cutting the line gives it.
-/

namespace VectorCalc.Token

/-! ## Lexemes -/

/-- A token without its place. -/
structure Lexeme where
  kind : Kind
  text : String
deriving DecidableEq

/-- A token, its place forgotten. -/
def lexeme (t : Token) : Lexeme := ⟨t.kind, t.text⟩

/-- The lexeme of the end token. -/
def Lexeme.final : Lexeme := ⟨.eof, ""⟩

/-- The operators: of one character, of two, and the two words. -/
def operators : List String :=
  ["+", "-", "*", "/", "**", "+/", "+\\", "*/", "*\\", "min", "max"]

/-- Some token that is not illegal begins with `c`. -/
def Opens (c : Char) : Prop :=
  isSpace c = true ∨ c.isAlpha = true ∨ c.isDigit = true ∨ c ∈ ['=', '+', '-', '*', '/']

instance (c : Char) : Decidable (Opens c) := inferInstanceAs (Decidable (_ ∨ _ ∨ _ ∨ _))

/-- How the lexemes of each kind are spelled. An end token has no place among them. -/
inductive Spells : Kind → List Char → Prop where
  | space {c : Char} {cs : List Char} (h : ∀ d ∈ c :: cs, isSpace d = true) :
    Spells .space (c :: cs)
  | number {c : Char} {cs : List Char} (h : ∀ d ∈ c :: cs, d.isDigit = true) :
    Spells .number (c :: cs)
  | identifier {c : Char} {cs : List Char} (hc : c.isAlpha = true)
    (hcs : ∀ d ∈ cs, isNameChar d = true) (hr : String.ofList (c :: cs) ∉ reserved) :
    Spells .identifier (c :: cs)
  | operator {cs : List Char} (h : String.ofList cs ∈ operators) : Spells .operator cs
  | assign : Spells .assign ['=']
  | illegal {c : Char} (h : ¬ Opens c) : Spells .illegal [c]

/-- The text of a lexeme belongs to its kind. -/
def Lexeme.Spelled (p : Lexeme) : Prop := Spells p.kind p.text.toList

/-- Two neighbours that are not read apart: the first one goes on into the second one. -/
inductive RunsOn (p q : Lexeme) : Prop where
  | spaces (hp : p.kind = .space) (hq : q.kind = .space)
  | numbers (hp : p.kind = .number) (hq : q.kind = .number)
  | word (hp : p.kind = .identifier ∨ p.text ∈ ["min", "max"]) {c : Char}
    (hc : q.text.toList.head? = some c) (hq : c.isAlpha = true ∨ c.isDigit = true ∨ c = '_')
  | plus (hp : p.text = "+") {c : Char} (hc : q.text.toList.head? = some c)
    (hq : c = '/' ∨ c = '\\')
  | star (hp : p.text = "*") {c : Char} (hc : q.text.toList.head? = some c)
    (hq : c = '*' ∨ c = '/' ∨ c = '\\')

/-- A way to read a line as lexemes side by side. -/
structure Reading (source : String) (ps : List Lexeme) : Prop where
  /-- The text of each lexeme belongs to its kind. -/
  spelled : ∀ p ∈ ps, p.Spelled
  /-- No lexeme goes on into the next one. -/
  apart : ps.IsChain fun p q => ¬ RunsOn p q
  /-- The texts side by side are the line. -/
  joined : String.join (ps.map Lexeme.text) = source

/-! ## Characters -/

theorem isNameChar_iff {c : Char} :
    isNameChar c = true ↔ c.isAlpha = true ∨ c.isDigit = true ∨ c = '_' := by
  simp only [isNameChar, Char.isAlphanum, Bool.or_eq_true, decide_eq_true_eq, or_assoc]

theorem isSpace_iff {c : Char} : isSpace c = true ↔ c = ' ' ∨ c = '\t' ∨ c = '\n' := by
  simp only [isSpace, Bool.or_eq_true, decide_eq_true_eq, or_assoc]

/-- No letter is a space. -/
theorem isSpace_of_isAlpha {c : Char} (h : c.isAlpha = true) : isSpace c = false := by
  rw [Bool.eq_false_iff]
  intro hs
  rcases isSpace_iff.1 hs with rfl | rfl | rfl <;> cases h

/-- No digit is a space. -/
theorem isSpace_of_isDigit {c : Char} (h : c.isDigit = true) : isSpace c = false := by
  rw [Bool.eq_false_iff]
  intro hs
  rcases isSpace_iff.1 hs with rfl | rfl | rfl <;> cases h

/-- No digit is a letter. -/
theorem isAlpha_of_isDigit {c : Char} (h : c.isDigit = true) : c.isAlpha = false := by
  rw [Bool.eq_false_iff]
  intro ha
  simp only [Char.isDigit, Char.isAlpha, Char.isUpper, Char.isLower, Bool.and_eq_true,
    Bool.or_eq_true, decide_eq_true_eq] at h ha
  grind

/-! ## Operators -/

theorem ofList_eq_iff {cs : List Char} {s : String} : String.ofList cs = s ↔ cs = s.toList := by
  rw [← String.toList_inj, String.toList_ofList]

/-- An operator is a word, a sign, or a sign that another one makes longer. -/
theorem mem_operators_iff {cs : List Char} :
    String.ofList cs ∈ operators ↔
      String.ofList cs ∈ reserved ∨ (∃ c ∈ ['+', '-', '*', '/'], cs = [c]) ∨
        ∃ c, ∃ d ∈ extensions c, cs = [c, d] := by
  have hext : ∀ c d, d ∈ extensions c ↔
      c = '+' ∧ (d = '/' ∨ d = '\\') ∨ c = '*' ∧ (d = '*' ∨ d = '/' ∨ d = '\\') := by
    intro c d
    unfold extensions
    split_ifs with hplus hstar
    · simp [hplus]
    · simp [hstar]
    · simp [hplus, hstar]
  simp only [operators, reserved, List.mem_cons, List.not_mem_nil, or_false, ofList_eq_iff, hext]
  constructor
  · rintro (h | h | h | h | h | h | h | h | h | h | h) <;> simp [h]
  · rintro (h | ⟨c, hc, h⟩ | ⟨c, d, hd, h⟩)
    · rcases h with h | h <;> simp [h]
    · rcases hc with rfl | rfl | rfl | rfl <;> simp [h]
    · rcases hd with ⟨rfl, rfl | rfl⟩ | ⟨rfl, rfl | rfl | rfl⟩ <;> simp [h]

/-- A word that is an operator has three letters. -/
theorem length_of_mem_reserved {cs : List Char} (h : String.ofList cs ∈ reserved) :
    cs.length = 3 := by
  rw [← String.length_ofList]
  simp only [reserved, List.mem_cons, List.not_mem_nil, or_false] at h
  rcases h with h | h <;> rw [h] <;> rfl

/-! ## One token -/

/-- A token of this kind and text goes on over the character `d` if it stands right behind it. -/
def GoesOn (kind : Kind) (cs : List Char) (d : Char) : Prop :=
  match kind with
  | .space => isSpace d = true
  | .number => d.isDigit = true
  | .identifier => isNameChar d = true
  | .operator =>
    (String.ofList cs ∈ reserved ∧ isNameChar d = true) ∨ ∃ c, cs = [c] ∧ d ∈ extensions c
  | .assign | .illegal | .eof => False

/-- A token of this kind and text ends before `rest`. -/
def Stops (kind : Kind) (cs rest : List Char) : Prop :=
  ∀ d, rest.head? = some d → ¬ GoesOn kind cs d

/-- A run of characters that ends before `rest` is the longest one. -/
theorem span_append {p : Char → Bool} {cs rest : List Char} (h : ∀ d ∈ cs, p d = true)
    (hstop : ∀ d, rest.head? = some d → p d = false) :
    (cs ++ rest).takeWhile p = cs ∧ (cs ++ rest).dropWhile p = rest := by
  rw [List.takeWhile_append_of_pos h, List.dropWhile_append_of_pos h]
  cases rest with
  | nil => simp
  | cons d rest =>
    have hd := hstop d rfl
    simp [hd]

/-- What is cut from the front of a text is spelled as its kind demands. -/
theorem spells_first (c : Char) (cs : List Char) : Spells (first c cs).1 (first c cs).2.1 := by
  rcases first_cases c cs with ⟨hs, h⟩ | ⟨hs, ha, h⟩ | ⟨hs, ha, hd, h⟩ |
    ⟨hs, ha, hd, d, rest, rfl, he, h⟩ | ⟨hs, ha, hd, he, h⟩
  · rw [h]
    refine .space fun d hmem => ?_
    rcases List.mem_cons.1 hmem with rfl | hmem
    · exact hs
    · exact List.mem_takeWhile_imp hmem
  · rw [h]
    dsimp only
    split
    · next hr => exact .operator (mem_operators_iff.2 (.inl hr))
    · next hr => exact .identifier ha (fun d hmem => List.mem_takeWhile_imp hmem) hr
  · rw [h]
    refine .number fun d hmem => ?_
    rcases List.mem_cons.1 hmem with rfl | hmem
    · exact hd
    · exact List.mem_takeWhile_imp hmem
  · rw [h]
    exact .operator (mem_operators_iff.2 (.inr (.inr ⟨c, d, he, rfl⟩)))
  · rw [h]
    dsimp only
    unfold loneKind
    split_ifs with heq hsign
    · rw [heq]
      exact .assign
    · exact .operator (mem_operators_iff.2 (.inr (.inl ⟨c, by simpa using hsign, rfl⟩)))
    · refine .illegal ?_
      rintro (h' | h' | h' | h')
      · rw [hs] at h'
        cases h'
      · rw [ha] at h'
        cases h'
      · rw [hd] at h'
        cases h'
      · rcases List.mem_cons.1 h' with h' | h'
        · exact heq h'
        · exact hsign (by simpa using h')

/-- The longest run of characters ends before what is left. -/
theorem not_of_head?_dropWhile {p : Char → Bool} {cs : List Char} {d : Char}
    (h : (cs.dropWhile p).head? = some d) : p d = false := by
  have hnot := List.head?_dropWhile_not p cs
  rw [h] at hnot
  simpa using hnot

/-- What is cut from the front of a text cannot be longer. -/
theorem stops_first (c : Char) (cs : List Char) :
    Stops (first c cs).1 (first c cs).2.1 (first c cs).2.2 := by
  intro d hd
  rcases first_cases c cs with ⟨hs, h⟩ | ⟨hs, ha, h⟩ | ⟨hs, ha, hdig, h⟩ |
    ⟨hs, ha, hdig, e, rest, rfl, he, h⟩ | ⟨hs, ha, hdig, he, h⟩
  · rw [h] at hd ⊢
    exact Bool.eq_false_iff.1 (not_of_head?_dropWhile hd)
  · rw [h] at hd ⊢
    have hnot := Bool.eq_false_iff.1 (not_of_head?_dropWhile hd)
    dsimp only
    split
    · next hr =>
      rintro (⟨-, hd⟩ | ⟨c', hc', -⟩)
      · exact hnot hd
      · -- a word that is an operator is longer than a sign
        rw [hc'] at hr
        cases length_of_mem_reserved hr
    · exact hnot
  · rw [h] at hd ⊢
    exact Bool.eq_false_iff.1 (not_of_head?_dropWhile hd)
  · rw [h]
    rintro (⟨hr, -⟩ | ⟨c', hc', -⟩)
    · cases length_of_mem_reserved hr
    · cases hc'
  · rw [h] at hd ⊢
    have hext : d ∉ extensions c := by
      cases cs with
      | nil => cases hd
      | cons d' rest =>
        cases hd
        exact he d rest rfl
    rcases loneKind_cases c with hk | hk | hk <;> dsimp only <;> rw [hk]
    · exact not_false
    · rintro (⟨hr, -⟩ | ⟨c', hc', hd'⟩)
      · cases length_of_mem_reserved hr
      · cases hc'
        exact hext hd'
    · exact not_false

/-- A word that cannot be longer is cut right behind it. -/
theorem first_of_word {c : Char} {cs rest : List Char} (hc : c.isAlpha = true)
    (hcs : ∀ d ∈ cs, isNameChar d = true)
    (hstop : ∀ d, rest.head? = some d → isNameChar d = false) :
    first c (cs ++ rest) =
      (if String.ofList (c :: cs) ∈ reserved then .operator else .identifier, c :: cs, rest) := by
  obtain ⟨htake, hdrop⟩ := span_append hcs hstop
  simp only [first, isSpace_of_isAlpha hc, hc, htake, hdrop, if_true, Bool.false_eq_true, if_false]

/-- A sign that is not made longer is cut alone. -/
theorem first_of_lone {c : Char} {rest : List Char} (hs : isSpace c = false)
    (ha : c.isAlpha = false) (hd : c.isDigit = false)
    (hstop : ∀ d, rest.head? = some d → d ∉ extensions c) :
    first c rest = (loneKind c, [c], rest) := by
  cases rest with
  | nil => simp only [first, hs, ha, hd, Bool.false_eq_true, if_false]
  | cons d rest =>
    simp only [first, hs, ha, hd, hstop d rfl, Bool.false_eq_true, if_false]

/-- A word that is an operator is spelled like an identifier. -/
theorem word_of_mem_reserved {c : Char} {cs : List Char} (h : String.ofList (c :: cs) ∈ reserved) :
    c.isAlpha = true ∧ ∀ d ∈ cs, isNameChar d = true := by
  simp only [reserved, List.mem_cons, List.not_mem_nil, or_false, ofList_eq_iff] at h
  rcases h with h | h
  · obtain ⟨rfl, rfl⟩ : c = 'm' ∧ cs = ['i', 'n'] := by simpa using h
    exact ⟨rfl, by simp [isNameChar]⟩
  · obtain ⟨rfl, rfl⟩ : c = 'm' ∧ cs = ['a', 'x'] := by simpa using h
    exact ⟨rfl, by simp [isNameChar]⟩

/-- What makes a sign longer is no letter and no digit, and neither is the sign. -/
theorem sign_of_mem_extensions {c d : Char} (h : d ∈ extensions c) :
    isSpace c = false ∧ c.isAlpha = false ∧ c.isDigit = false := by
  unfold extensions at h
  split_ifs at h with hplus hstar
  · rw [hplus]
    decide
  · rw [hstar]
    decide
  · cases h

/-- An operator that cannot be longer is cut right behind it. -/
theorem first_of_operator {c : Char} {cs rest : List Char}
    (h : String.ofList (c :: cs) ∈ operators) (hstop : Stops .operator (c :: cs) rest) :
    first c (cs ++ rest) = (.operator, c :: cs, rest) := by
  rcases mem_operators_iff.1 h with hr | ⟨c', hc', hcs⟩ | ⟨c', d, hd, hcs⟩
  · obtain ⟨hc, hcs⟩ := word_of_mem_reserved hr
    have hend : ∀ d, rest.head? = some d → isNameChar d = false := by
      intro d hd
      rw [Bool.eq_false_iff]
      exact fun hname => hstop d hd (.inl ⟨hr, hname⟩)
    rw [first_of_word hc hcs hend, if_pos hr]
  · cases hcs
    have hend : ∀ d, rest.head? = some d → d ∉ extensions c := by
      intro d hd hext
      exact hstop d hd (.inr ⟨c, rfl, hext⟩)
    simp only [List.mem_cons, List.not_mem_nil, or_false] at hc'
    rcases hc' with rfl | rfl | rfl | rfl <;> exact first_of_lone rfl rfl rfl hend
  · cases hcs
    obtain ⟨hs, ha, hdig⟩ := sign_of_mem_extensions hd
    simp only [first, hs, ha, hdig, hd, List.cons_append, List.nil_append, Bool.false_eq_true,
      if_false, if_true]

/-- A text that begins with a lexeme which cannot be longer is cut right behind it. -/
theorem first_of_spells {kind : Kind} {c : Char} {cs rest : List Char}
    (h : Spells kind (c :: cs)) (hstop : Stops kind (c :: cs) rest) :
    first c (cs ++ rest) = (kind, c :: cs, rest) := by
  cases h with
  | space h =>
    have hc := h c List.mem_cons_self
    have hends : ∀ d, rest.head? = some d → isSpace d = false :=
      fun d hd => Bool.eq_false_iff.2 (hstop d hd)
    obtain ⟨htake, hdrop⟩ := span_append (fun d hd => h d (List.mem_cons_of_mem c hd)) hends
    simp only [first, hc, htake, hdrop, if_true]
  | number h =>
    have hc := h c List.mem_cons_self
    have hends : ∀ d, rest.head? = some d → d.isDigit = false :=
      fun d hd => Bool.eq_false_iff.2 (hstop d hd)
    obtain ⟨htake, hdrop⟩ := span_append (fun d hd => h d (List.mem_cons_of_mem c hd)) hends
    simp only [first, isSpace_of_isDigit hc, isAlpha_of_isDigit hc, hc, htake, hdrop, if_true,
      Bool.false_eq_true, if_false]
  | identifier hc hcs hr =>
    rw [first_of_word hc hcs fun d hd => Bool.eq_false_iff.2 (hstop d hd), if_neg hr]
  | operator h => exact first_of_operator h hstop
  | assign => exact first_of_lone rfl rfl rfl fun d _ => List.not_mem_nil
  | illegal h =>
    rw [Opens, not_or, not_or, not_or] at h
    obtain ⟨hs, ha, hdig, hsign⟩ := h
    have hext : extensions c = [] := by
      unfold extensions
      split_ifs with hplus hstar
      · simp [hplus] at hsign
      · simp [hstar] at hsign
      · rfl
    have hkind : loneKind c = .illegal := by
      simp only [List.mem_cons, List.not_mem_nil, or_false, not_or] at hsign
      simp [loneKind, hsign]
    rw [List.nil_append, first_of_lone (Bool.eq_false_iff.2 hs) (Bool.eq_false_iff.2 ha)
      (Bool.eq_false_iff.2 hdig) (fun d _ => by simp [hext]), hkind]

/-! ## Neighbours -/

theorem Spells.ne_nil {kind : Kind} {cs : List Char} (h : Spells kind cs) : cs ≠ [] := by
  cases h with
  | operator h =>
    rintro rfl
    exact absurd h (by decide)
  | _ => exact List.cons_ne_nil _ _

/-- A text belongs to one kind at most. -/
theorem Spells.kind_eq {kind : Kind} {c : Char} {cs : List Char} (h : Spells kind (c :: cs)) :
    (first c cs).1 = kind := by
  have hstop : Stops kind (c :: cs) [] := fun d hd => by cases hd
  have hfirst := first_of_spells h hstop
  rw [List.append_nil] at hfirst
  rw [hfirst]

/-- A token that begins with a digit is a number. -/
theorem first_kind_of_isDigit {c : Char} (h : c.isDigit = true) (cs : List Char) :
    (first c cs).1 = .number := by
  simp only [first, isSpace_of_isDigit h, isAlpha_of_isDigit h, h, if_true, Bool.false_eq_true,
    if_false]

namespace Lexeme

variable {p q : Lexeme}

theorem Spelled.exists_cons (h : p.Spelled) : ∃ c cs, p.text.toList = c :: cs :=
  List.exists_cons_of_ne_nil h.ne_nil

/-- A lexeme whose text is an operator is one. -/
theorem Spelled.kind_of_operator (h : p.Spelled) (hp : p.text ∈ operators) : p.kind = .operator := by
  obtain ⟨c, cs, hcs⟩ := h.exists_cons
  have hop : String.ofList (c :: cs) ∈ operators := by
    rw [← hcs, String.ofList_toList]
    exact hp
  have hkind := (Spells.operator hop).kind_eq
  rw [Spelled, hcs] at h
  exact h.kind_eq.symm.trans hkind

/-- A lexeme that begins with a space is a space. -/
theorem Spelled.kind_of_isSpace (h : p.Spelled) {c : Char} (hc : p.text.toList.head? = some c)
    (hs : isSpace c = true) : p.kind = .space := by
  obtain ⟨c', cs, hcs⟩ := h.exists_cons
  rw [Spelled, hcs] at h
  rw [hcs] at hc
  cases hc
  rw [← h.kind_eq]
  exact (first_kind_eq_space_iff c cs).2 hs

/-- A lexeme that begins with a digit is a number. -/
theorem Spelled.kind_of_isDigit (h : p.Spelled) {c : Char} (hc : p.text.toList.head? = some c)
    (hd : c.isDigit = true) : p.kind = .number := by
  obtain ⟨c', cs, hcs⟩ := h.exists_cons
  rw [Spelled, hcs] at h
  rw [hcs] at hc
  cases hc
  rw [← h.kind_eq]
  exact first_kind_of_isDigit hd cs

theorem goesOn_plus {d : Char} : GoesOn .operator "+".toList d ↔ d = '/' ∨ d = '\\' := by
  simp [GoesOn, reserved, extensions]

theorem goesOn_star {d : Char} :
    GoesOn .operator "*".toList d ↔ d = '*' ∨ d = '/' ∨ d = '\\' := by
  simp [GoesOn, reserved, extensions]

/-- If two neighbours run together, the first one goes on over the first character of the second
one. -/
theorem goesOn_of_runsOn (hp : p.Spelled) (hq : q.Spelled) (h : RunsOn p q) :
    ∃ d, q.text.toList.head? = some d ∧ GoesOn p.kind p.text.toList d := by
  obtain ⟨d, ds, hds⟩ := hq.exists_cons
  cases h with
  | spaces hkind hspace =>
    rw [Spelled, hspace, hds] at hq
    rw [hkind, hds]
    cases hq with
    | space h => exact ⟨d, rfl, h d List.mem_cons_self⟩
  | numbers hkind hnumber =>
    rw [Spelled, hnumber, hds] at hq
    rw [hkind, hds]
    cases hq with
    | number h => exact ⟨d, rfl, h d List.mem_cons_self⟩
  | @word hword c hc hname =>
    refine ⟨c, hc, ?_⟩
    rcases hword with hkind | htext
    · rw [hkind]
      exact isNameChar_iff.2 hname
    · have hop : p.text ∈ operators := by
        rcases List.mem_cons.1 htext with h | h
        · rw [h]
          decide
        · rw [List.mem_singleton.1 h]
          decide
      rw [hp.kind_of_operator hop]
      refine .inl ⟨?_, isNameChar_iff.2 hname⟩
      rw [String.ofList_toList]
      exact htext
  | @plus htext c hc hsign =>
    refine ⟨c, hc, ?_⟩
    rw [hp.kind_of_operator (by rw [htext]; decide), htext]
    exact goesOn_plus.2 hsign
  | @star htext c hc hsign =>
    refine ⟨c, hc, ?_⟩
    rw [hp.kind_of_operator (by rw [htext]; decide), htext]
    exact goesOn_star.2 hsign

theorem runsOn_of_goesOn (hq : q.Spelled) {d : Char} (hd : q.text.toList.head? = some d)
    (h : GoesOn p.kind p.text.toList d) : RunsOn p q := by
  cases hkind : p.kind with
  | space =>
    rw [hkind] at h
    exact .spaces hkind (hq.kind_of_isSpace hd h)
  | number =>
    rw [hkind] at h
    exact .numbers hkind (hq.kind_of_isDigit hd h)
  | identifier =>
    rw [hkind] at h
    exact .word (.inl hkind) hd (isNameChar_iff.1 h)
  | operator =>
    rw [hkind] at h
    rcases h with ⟨hr, hname⟩ | ⟨c, hc, hext⟩
    · rw [String.ofList_toList] at hr
      exact .word (.inr hr) hd (isNameChar_iff.1 hname)
    · have htext : p.text = String.ofList [c] := by
        rw [← hc, String.ofList_toList]
      unfold extensions at hext
      split_ifs at hext with hplus hstar
      · refine .plus ?_ hd (by simpa using hext)
        rw [htext, hplus]
      · refine .star ?_ hd (by simpa using hext)
        rw [htext, hstar]
      · cases hext
  | assign | illegal | eof =>
    rw [hkind] at h
    exact h.elim

end Lexeme

/-! ## A list of tokens -/

/-- The text of a list of lexemes. -/
theorem toList_join_text (ps : List Lexeme) :
    (String.join (ps.map Lexeme.text)).toList = ps.flatMap (·.text.toList) := by
  rw [String.toList_join, List.flatMap_map]

/-- A lexeme that does not run together with the next one ends before the others. -/
theorem stops_of_isChain {p : Lexeme} {ps : List Lexeme} (hspelled : ∀ q ∈ ps, q.Spelled)
    (hapart : ∀ q ∈ ps.head?, ¬ RunsOn p q) :
    Stops p.kind p.text.toList (ps.flatMap (·.text.toList)) := by
  intro d hd hgoes
  cases ps with
  | nil => cases hd
  | cons q ps =>
    have hq := hspelled q List.mem_cons_self
    obtain ⟨c, cs, hcs⟩ := hq.exists_cons
    rw [List.flatMap_cons, hcs, List.cons_append, List.head?_cons] at hd
    exact hapart q rfl (Lexeme.runsOn_of_goesOn hq (by rw [hcs, ← hd]; rfl) hgoes)

/-- Lexemes that do not run together are cut apart. -/
theorem lexemes_of_isChain {ps : List Lexeme} (hspelled : ∀ p ∈ ps, p.Spelled)
    (hapart : ps.IsChain fun p q => ¬ RunsOn p q) {s : Scanner}
    (hs : s.rest = ps.flatMap (·.text.toList)) :
    s.tokens.map lexeme = ps ++ [Lexeme.final] := by
  induction ps generalizing s with
  | nil =>
    rw [Scanner.tokens_of_nil hs]
    rfl
  | cons p ps ih =>
    obtain ⟨hp, hps⟩ := List.forall_mem_cons.1 hspelled
    obtain ⟨hhead, htail⟩ := List.isChain_cons.1 hapart
    obtain ⟨c, cs, hcs⟩ := hp.exists_cons
    have hstop := stops_of_isChain hps hhead
    rw [List.flatMap_cons, hcs, List.cons_append] at hs
    rw [Lexeme.Spelled] at hp
    rw [hcs] at hp hstop
    have hfirst := first_of_spells hp hstop
    have hne : s.rest ≠ [] := by
      rw [hs]
      exact List.cons_ne_nil _ _
    have hscan := Scanner.scan_of_cons hs
    rw [hfirst] at hscan
    rw [Scanner.tokens_of_ne_nil hne, hscan, List.map_cons, ih hps htail rfl, List.cons_append]
    congr 1
    rw [lexeme, ← hcs, String.ofList_toList]

/-- What is cut is spelled as its kind demands, and no two neighbours run together. -/
theorem reading_of_tokens (s : Scanner) :
    ∃ ps, s.tokens.map lexeme = ps ++ [Lexeme.final] ∧ Reading (String.ofList s.rest) ps := by
  induction s using Scanner.tokens.induct with
  | case1 s h =>
    refine ⟨[], by rw [Scanner.tokens_of_nil h]; rfl, List.forall_mem_nil _, .nil, ?_⟩
    rw [h]
    rfl
  | case2 s h ih =>
    obtain ⟨ps, htokens, hspelled, hapart, hjoined⟩ := ih
    obtain ⟨c, cs, hrest⟩ := List.exists_cons_of_ne_nil h
    have hscan := Scanner.scan_of_cons hrest
    have hp : (lexeme s.scan.1).Spelled := by
      rw [hscan, lexeme, Lexeme.Spelled, String.toList_ofList]
      exact spells_first c cs
    have hafter : ps.flatMap (·.text.toList) = (first c cs).2.2 := by
      rw [← toList_join_text, hjoined, String.toList_ofList, hscan]
    refine ⟨lexeme s.scan.1 :: ps, ?_, List.forall_mem_cons.2 ⟨hp, hspelled⟩,
      List.isChain_cons.2 ⟨fun q hq hruns => ?_, hapart⟩, ?_⟩
    · rw [Scanner.tokens_of_ne_nil h, List.map_cons, htokens, List.cons_append]
    · -- the next lexeme begins with the character before which the token has ended
      have hqs : q ∈ ps := List.mem_of_mem_head? hq
      obtain ⟨d, hd, hgoes⟩ := Lexeme.goesOn_of_runsOn hp (hspelled q hqs) hruns
      have hhead : (first c cs).2.2.head? = some d := by
        cases ps with
        | nil => cases hq
        | cons q' ps =>
          cases hq
          rw [← hafter, List.flatMap_cons, List.head?_append, hd]
          rfl
      rw [hscan, lexeme, String.toList_ofList] at hgoes
      exact stops_first c cs d hhead hgoes
    · rw [← String.toList_inj, toList_join_text, String.toList_ofList, List.flatMap_cons, hafter,
        hrest, lexeme, hscan, String.toList_ofList]
      exact first_append c cs

/-! ## Lines -/

/-- A list of lexemes that is a reading of the line is what the line is cut into. -/
theorem lexemes_of_reading {source : String} {ps : List Lexeme} (h : Reading source ps) :
    (tokenize source).map lexeme = ps ++ [Lexeme.final] := by
  apply lexemes_of_isChain h.spelled h.apart
  rw [← toList_join_text, h.joined]
  rfl

/-- A line of digits is one number. -/
theorem tokenize_digits {line : String} (hne : line ≠ "")
    (hd : ∀ d ∈ line.toList, d.isDigit = true) :
    ∃ t z, tokenize line = [t, z] ∧ t.kind = .number ∧ t.text = line ∧ z.kind = .eof := by
  have hspelled : Lexeme.Spelled ⟨.number, line⟩ := by
    obtain ⟨c, cs, hcs⟩ := List.exists_cons_of_ne_nil (mt String.toList_eq_nil_iff.1 hne)
    rw [Lexeme.Spelled, hcs]
    exact .number (hcs ▸ hd)
  have hreading : Reading line [⟨.number, line⟩] := by
    refine ⟨fun p hp => ?_, .singleton _, by simp⟩
    rw [List.mem_singleton.1 hp]
    exact hspelled
  have hlexemes := lexemes_of_reading hreading
  rw [List.singleton_append, List.map_eq_cons_iff] at hlexemes
  obtain ⟨t, ts, htokens, ht, hts⟩ := hlexemes
  obtain ⟨z, rfl, hz⟩ := List.map_eq_singleton_iff.1 hts
  exact ⟨t, z, htokens, congrArg Lexeme.kind ht, congrArg Lexeme.text ht, congrArg Lexeme.kind hz⟩

/-- Each line is cut into a reading of it. -/
theorem exists_reading (source : String) :
    ∃ ps, (tokenize source).map lexeme = ps ++ [Lexeme.final] ∧ Reading source ps := by
  obtain ⟨ps, htokens, hreading⟩ := reading_of_tokens (Scanner.ofText source)
  refine ⟨ps, htokens, ?_⟩
  rw [Scanner.ofText, String.ofList_toList] at hreading
  exact hreading

/-- A list of lexemes that are spelled as their kinds demand is given back by cutting its text if, and
only if, no two neighbours run together. Every line is cut into such a list, and this is the only
reading of the line. -/
theorem tokenize_longest_match :
    (∀ ps : List Lexeme, (∀ p ∈ ps, p.Spelled) →
      ((tokenize (String.join (ps.map Lexeme.text))).map lexeme = ps ++ [.final] ↔
        ps.IsChain fun p q => ¬ RunsOn p q)) ∧
    ∀ source, ∃ ps, (tokenize source).map lexeme = ps ++ [.final] ∧ Reading source ps ∧
      ∀ qs, Reading source qs → qs = ps := by
  constructor
  · intro ps hspelled
    constructor
    · intro htokens
      obtain ⟨qs, hqs, hreading⟩ := exists_reading (String.join (ps.map Lexeme.text))
      rw [htokens, List.append_cancel_right_eq] at hqs
      rw [hqs]
      exact hreading.apart
    · intro hapart
      exact lexemes_of_reading ⟨hspelled, hapart, rfl⟩
  · intro source
    obtain ⟨ps, htokens, hreading⟩ := exists_reading source
    refine ⟨ps, htokens, hreading, fun qs hqs => ?_⟩
    have hcut := lexemes_of_reading hqs
    rw [htokens, List.append_cancel_right_eq] at hcut
    exact hcut.symm

/-- The underscore is illegal behind an operator, and belongs to a name behind that name. -/
theorem tokenize_underscores :
    (tokenize "x+/_").map lexeme =
        [⟨.identifier, "x"⟩, ⟨.operator, "+/"⟩, ⟨.illegal, "_"⟩, .final] ∧
      (tokenize "x_").map lexeme ≠ [⟨.identifier, "x"⟩, ⟨.illegal, "_"⟩, .final] := by
  have hx : Lexeme.Spelled ⟨.identifier, "x"⟩ := .identifier (by decide) nofun (by decide)
  have hscan : Lexeme.Spelled ⟨.operator, "+/"⟩ := .operator (by decide)
  have hillegal : Lexeme.Spelled ⟨.illegal, "_"⟩ := @Spells.illegal '_' (by decide)
  constructor
  · refine (tokenize_longest_match.1 [⟨.identifier, "x"⟩, ⟨.operator, "+/"⟩, ⟨.illegal, "_"⟩]
      (by simp [hx, hscan, hillegal])).2 (.cons_cons ?_ (.cons_cons ?_ (.singleton _)))
    · intro h
      cases h with
      | word _ hc hname =>
        cases hc
        exact absurd hname (by decide)
      | _ hp => exact absurd hp (by decide)
    · intro h
      cases h with
      | _ hp => exact absurd hp (by decide)
  · intro h
    have hapart := (tokenize_longest_match.1 [⟨.identifier, "x"⟩, ⟨.illegal, "_"⟩]
      (by simp [hx, hillegal])).1 h
    exact (List.isChain_cons_cons.1 hapart).1 (.word (.inl rfl) rfl (.inr (.inr rfl)))

end VectorCalc.Token
