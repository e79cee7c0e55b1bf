import Mathlib
import VectorCalc.Token

/-!
# Tokens tile a line

Cutting a line loses no character and repeats none. The facts below start from one scan and go up to
the whole line:

* what one scan says about the token, the text before it and the text behind it;
* the list of tokens: it ends with the end token, neighbours touch, each token has the text between
  its two ends (`Tiles`);
* scans that are repeated beyond the end of the line.
-/

namespace VectorCalc.Token

/-! ## The first token of a text -/

/-- What the first token of a text can be: a run of spaces, a word, a run of digits, an operator of
two characters, or a lone character. -/
theorem first_cases (c : Char) (cs : List Char) :
    (isSpace c = true ∧ first c cs = (.space, c :: cs.takeWhile isSpace, cs.dropWhile isSpace)) ∨
    (isSpace c = false ∧ c.isAlpha = true ∧
      first c cs =
        (if String.ofList (c :: cs.takeWhile isNameChar) ∈ reserved then .operator else .identifier,
          c :: cs.takeWhile isNameChar, cs.dropWhile isNameChar)) ∨
    (isSpace c = false ∧ c.isAlpha = false ∧ c.isDigit = true ∧
      first c cs = (.number, c :: cs.takeWhile Char.isDigit, cs.dropWhile Char.isDigit)) ∨
    (isSpace c = false ∧ c.isAlpha = false ∧ c.isDigit = false ∧
      ∃ d rest, cs = d :: rest ∧ d ∈ extensions c ∧ first c cs = (.operator, [c, d], rest)) ∨
    (isSpace c = false ∧ c.isAlpha = false ∧ c.isDigit = false ∧
      (∀ d rest, cs = d :: rest → d ∉ extensions c) ∧ first c cs = (loneKind c, [c], cs)) := by
  by_cases hs : isSpace c = true
  · exact .inl ⟨hs, by simp [first, hs]⟩
  rw [Bool.not_eq_true] at hs
  by_cases ha : c.isAlpha = true
  · exact .inr (.inl ⟨hs, ha, by simp [first, hs, ha]⟩)
  rw [Bool.not_eq_true] at ha
  by_cases hd : c.isDigit = true
  · exact .inr (.inr (.inl ⟨hs, ha, hd, by simp [first, hs, ha, hd]⟩))
  rw [Bool.not_eq_true] at hd
  cases cs with
  | nil => exact .inr (.inr (.inr (.inr ⟨hs, ha, hd, by simp, by simp [first, hs, ha, hd]⟩)))
  | cons d rest =>
    by_cases he : d ∈ extensions c
    · exact .inr (.inr (.inr (.inl
        ⟨hs, ha, hd, d, rest, rfl, he, by simp [first, hs, ha, hd, he]⟩)))
    · exact .inr (.inr (.inr (.inr
        ⟨hs, ha, hd, by simp [he], by simp [first, hs, ha, hd, he]⟩)))

/-- A token has a character at least. -/
theorem first_text_ne_nil (c : Char) (cs : List Char) : (first c cs).2.1 ≠ [] := by
  rcases first_cases c cs with ⟨-, h⟩ | ⟨-, -, h⟩ | ⟨-, -, -, h⟩ | ⟨-, -, -, d, rest, -, -, h⟩ |
    ⟨-, -, -, -, h⟩ <;> rw [h] <;> exact List.cons_ne_nil _ _

/-- A lone character is an assignment sign, an operator or illegal. -/
theorem loneKind_cases (c : Char) :
    loneKind c = .assign ∨ loneKind c = .operator ∨ loneKind c = .illegal := by
  unfold loneKind
  split_ifs <;> simp

/-- No token of a text is an end token. -/
theorem first_kind_ne_eof (c : Char) (cs : List Char) : (first c cs).1 ≠ .eof := by
  rcases first_cases c cs with ⟨-, h⟩ | ⟨-, -, h⟩ | ⟨-, -, -, h⟩ | ⟨-, -, -, d, rest, -, -, h⟩ |
    ⟨-, -, -, -, h⟩
  · simp [h]
  · simp only [h]
    split <;> simp
  · simp [h]
  · simp [h]
  · rcases loneKind_cases c with hk | hk | hk <;> simp [h, hk]

/-- A text begins with a space token if its first character separates tokens, and only then. -/
theorem first_kind_eq_space_iff (c : Char) (cs : List Char) :
    (first c cs).1 = .space ↔ isSpace c = true := by
  rcases first_cases c cs with ⟨hs, h⟩ | ⟨hs, -, h⟩ | ⟨hs, -, -, h⟩ | ⟨hs, -, -, d, rest, -, -, h⟩ |
    ⟨hs, -, -, -, h⟩
  · simp [h, hs]
  · simp only [h, hs]
    split <;> simp
  · simp [h, hs]
  · simp [h, hs]
  · rcases loneKind_cases c with hk | hk | hk <;> simp [h, hs, hk]

namespace Scanner

/-! ## One scan -/

/-- At the end of a line the scanner stays where it is. -/
theorem scan_of_nil {s : Scanner} (h : s.rest = []) : s.scan = (eof s.index, s) := by
  simp only [scan, h]

theorem scan_of_cons {s : Scanner} {c : Char} {cs : List Char} (h : s.rest = c :: cs) :
    s.scan =
      (⟨(first c cs).1, String.ofList (first c cs).2.1, s.index,
          s.index + (first c cs).2.1.length⟩,
        ⟨(first c cs).2.2, s.index + (first c cs).2.1.length⟩) := by
  simp only [scan, h]

/-- A token starts where the scanner stands. -/
@[simp] theorem scan_start (s : Scanner) : s.scan.1.start = s.index := by
  cases h : s.rest with
  | nil => rw [scan_of_nil h]; rfl
  | cons c cs => rw [scan_of_cons h]

/-- The scanner moves to the end of the token. -/
@[simp] theorem scan_index (s : Scanner) : s.scan.2.index = s.scan.1.stop := by
  cases h : s.rest with
  | nil => rw [scan_of_nil h]; rfl
  | cons c cs => rw [scan_of_cons h]

/-- A token is as long as its text. -/
theorem scan_stop (s : Scanner) : s.scan.1.stop = s.index + s.scan.1.text.length := by
  cases h : s.rest with
  | nil => rw [scan_of_nil h]; rfl
  | cons c cs => rw [scan_of_cons h, String.length_ofList]

/-- One scan loses no character. -/
theorem scan_append (s : Scanner) : s.scan.1.text.toList ++ s.scan.2.rest = s.rest := by
  cases h : s.rest with
  | nil =>
    rw [scan_of_nil h, h]
    rfl
  | cons c cs =>
    rw [scan_of_cons h, String.toList_ofList]
    exact first_append c cs

theorem scan_kind_eq_eof_iff (s : Scanner) : s.scan.1.kind = .eof ↔ s.rest = [] := by
  cases h : s.rest with
  | nil =>
    rw [scan_of_nil h]
    simp [eof]
  | cons c cs =>
    rw [scan_of_cons h]
    simp [first_kind_ne_eof]

theorem scan_text_ne_empty {s : Scanner} (h : s.rest ≠ []) : s.scan.1.text ≠ "" := by
  obtain ⟨c, cs, hc⟩ := List.exists_cons_of_ne_nil h
  rw [scan_of_cons hc]
  intro he
  have : (first c cs).2.1 = [] := by simpa using congrArg String.toList he
  exact first_text_ne_nil c cs this

/-! ## The list of tokens -/

theorem tokens_of_nil {s : Scanner} (h : s.rest = []) : s.tokens = [eof s.index] := by
  rw [tokens, dif_pos h, scan_of_nil h]

theorem tokens_of_ne_nil {s : Scanner} (h : s.rest ≠ []) :
    s.tokens = s.scan.1 :: s.scan.2.tokens := by
  rw [tokens, dif_neg h]

/-- The first token of the list is the one that is scanned next. -/
theorem head?_tokens (s : Scanner) : s.tokens.head? = some s.scan.1 := by
  rw [tokens]
  split <;> rfl

/-- The end token stands last, and nowhere else. -/
theorem tokens_eq_append_eof (s : Scanner) :
    ∃ body, s.tokens = body ++ [eof (s.index + s.rest.length)] ∧
      ∀ t ∈ body, t.kind ≠ .eof ∧ t.text ≠ "" := by
  induction s using tokens.induct with
  | case1 s h => exact ⟨[], by simp [tokens_of_nil h, h], by simp⟩
  | case2 s h ih =>
    obtain ⟨body, hbody, hkind⟩ := ih
    refine ⟨s.scan.1 :: body, ?_, ?_⟩
    · have hlen := congrArg List.length s.scan_append
      rw [List.length_append, String.length_toList] at hlen
      rw [tokens_of_ne_nil h, hbody, scan_index, scan_stop, List.cons_append, ← hlen, Nat.add_assoc]
    · intro t ht
      rcases List.mem_cons.1 ht with rfl | ht
      · exact ⟨fun he => h ((scan_kind_eq_eof_iff s).1 he), scan_text_ne_empty h⟩
      · exact hkind t ht

/-- Each token begins where the one before it ends. -/
theorem isChain_tokens (s : Scanner) : s.tokens.IsChain fun t u => t.stop = u.start := by
  induction s using tokens.induct with
  | case1 s h =>
    rw [tokens_of_nil h]
    exact .singleton _
  | case2 s h ih =>
    rw [tokens_of_ne_nil h, List.isChain_cons]
    refine ⟨fun u hu => ?_, ih⟩
    rw [head?_tokens, Option.mem_some_iff] at hu
    rw [← hu, scan_start, scan_index]

/-- The texts of all tokens together are the text that was to be cut. -/
theorem flatMap_text_tokens (s : Scanner) : s.tokens.flatMap (·.text.toList) = s.rest := by
  induction s using tokens.induct with
  | case1 s h =>
    rw [tokens_of_nil h, h]
    rfl
  | case2 s h ih => rw [tokens_of_ne_nil h, List.flatMap_cons, ih, scan_append]

/-! ## Scanners on a line -/

/-- The scanner stands in the line: what it has left is the line from its index on. -/
def On (source : String) (s : Scanner) : Prop :=
  s.index ≤ source.length ∧ s.rest = source.toList.drop s.index

theorem on_ofText (source : String) : On source (ofText source) :=
  ⟨Nat.zero_le _, rfl⟩

variable {source : String} {s : Scanner}

theorem On.scan (h : On source s) : On source s.scan.2 := by
  obtain ⟨hle, hrest⟩ := h
  have happ := s.scan_append
  have hlen := congrArg List.length happ
  rw [hrest, List.length_append, List.length_drop, String.length_toList,
    String.length_toList] at hlen
  refine ⟨?_, ?_⟩
  · rw [scan_index, scan_stop]
    omega
  · rw [scan_index, scan_stop, ← List.drop_drop, ← hrest, ← happ, ← String.length_toList,
      List.drop_left]

/-- A token of the line has the text between its two ends. -/
theorem On.text_scan (h : On source s) :
    s.scan.1.stop ≤ source.length ∧
      s.scan.1.text.toList = source.toList.extract s.scan.1.start s.scan.1.stop := by
  refine ⟨by rw [← scan_index]; exact h.scan.1, ?_⟩
  rw [List.extract_eq_take_drop, scan_start, scan_stop, Nat.add_sub_cancel_left, ← h.2,
    ← s.scan_append, ← String.length_toList, List.take_left]

theorem On.text_tokens (h : On source s) :
    ∀ t ∈ s.tokens,
      t.stop ≤ source.length ∧ t.text.toList = source.toList.extract t.start t.stop := by
  induction s using tokens.induct with
  | case1 s hs =>
    intro t ht
    rw [tokens_of_nil hs, List.mem_singleton] at ht
    have hscan := h.text_scan
    rw [scan_of_nil hs] at hscan
    rw [ht]
    exact hscan
  | case2 s hs ih =>
    intro t ht
    rw [tokens_of_ne_nil hs] at ht
    rcases List.mem_cons.1 ht with rfl | ht
    · exact h.text_scan
    · exact ih h.scan t ht

/-- A scanner that has nothing left stands at the end of the line. -/
theorem On.index_of_nil (h : On source s) (hs : s.rest = []) : s.index = source.length := by
  have hdrop := h.2
  rw [hs, eq_comm, List.drop_eq_nil_iff, String.length_toList] at hdrop
  exact Nat.le_antisymm h.1 hdrop

/-! ## Repeated scans -/

/-- The scanner after `n` scans. -/
def skip : Nat → Scanner → Scanner
  | 0, s => s
  | n + 1, s => skip n s.scan.2

@[simp] theorem skip_zero (s : Scanner) : s.skip 0 = s := rfl

theorem skip_succ (n : Nat) (s : Scanner) : s.skip (n + 1) = (s.skip n).scan.2 := by
  induction n generalizing s with
  | zero => rfl
  | succ n ih => exact ih s.scan.2

theorem skip_of_nil (h : s.rest = []) (n : Nat) : s.skip n = s := by
  induction n with
  | zero => rfl
  | succ n ih => rw [skip_succ, ih, scan_of_nil h]

theorem On.skip (h : On source s) (n : Nat) : On source (s.skip n) := by
  induction n with
  | zero => exact h
  | succ n ih =>
    rw [skip_succ]
    exact ih.scan

/-- Scans give the tokens of the list, one after the other. -/
theorem scan_skip_of_getElem? {n : Nat} {t : Token} (h : s.tokens[n]? = some t) :
    (s.skip n).scan.1 = t := by
  induction n generalizing s with
  | zero =>
    rw [← List.head?_eq_getElem?, head?_tokens] at h
    exact Option.some.inj h
  | succ n ih =>
    by_cases hs : s.rest = []
    · simp [tokens_of_nil hs] at h
    · rw [tokens_of_ne_nil hs, List.getElem?_cons_succ] at h
      exact ih h

/-- After as many scans as there are tokens nothing is left. -/
theorem rest_skip_of_le {n : Nat} (h : s.tokens.length ≤ n) : (s.skip n).rest = [] := by
  induction n generalizing s with
  | zero =>
    have hhead := s.head?_tokens
    rw [List.length_eq_zero_iff.1 (Nat.le_zero.1 h)] at hhead
    cases hhead
  | succ n ih =>
    by_cases hs : s.rest = []
    · rw [skip_of_nil hs, hs]
    · rw [tokens_of_ne_nil hs, List.length_cons] at h
      exact ih (Nat.le_of_succ_le_succ h)

end Scanner

/-! ## Tilings -/

/-- The tokens lie side by side on the line and cover it, and the end token closes them. -/
structure Tiles (source : String) (tokens : List Token) : Prop where
  /-- The end token stands last. -/
  getLast?_eq : tokens.getLast? = some (eof source.length)
  /-- The other tokens are no end tokens and have a character at least. -/
  filled : ∀ t ∈ tokens.dropLast, t.kind ≠ .eof ∧ t.text ≠ ""
  /-- The first token begins with the line. -/
  head_start : tokens.head?.map start = some 0
  /-- Each token begins where the one before it ends. -/
  touch : tokens.IsChain fun t u => t.stop = u.start
  /-- Each token has the text between its two ends. -/
  text_eq : ∀ t ∈ tokens,
    t.stop ≤ source.length ∧ t.text.toList = source.toList.extract t.start t.stop

/-- Only the end token has no text. -/
theorem Tiles.text_ne_empty {source : String} {tokens : List Token} (h : Tiles source tokens)
    {t : Token} (ht : t ∈ tokens) (hkind : t.kind ≠ .eof) : t.text ≠ "" := by
  obtain ⟨front, hfront⟩ := List.getLast?_eq_some_iff.1 h.getLast?_eq
  have hdrop : tokens.dropLast = front := by rw [hfront, List.dropLast_concat]
  rw [hfront, List.mem_append, List.mem_singleton] at ht
  rcases ht with ht | rfl
  · exact (h.filled t (hdrop ▸ ht)).2
  · exact absurd rfl hkind

theorem tiles_tokenize (source : String) : Tiles source (tokenize source) := by
  obtain ⟨body, hbody, hkind⟩ := (Scanner.ofText source).tokens_eq_append_eof
  have hlen : (Scanner.ofText source).index + (Scanner.ofText source).rest.length = source.length :=
    (Nat.zero_add _).trans String.length_toList
  rw [hlen] at hbody
  refine ⟨?_, ?_, ?_, Scanner.isChain_tokens _, (Scanner.on_ofText source).text_tokens⟩
  · rw [tokenize, hbody, List.getLast?_concat]
  · rw [tokenize, hbody, List.dropLast_concat]
    exact hkind
  · rw [tokenize, Scanner.head?_tokens, Option.map_some, Scanner.scan_start]
    rfl

/-- A line is cut without loss into tokens that lie side by side. As many scans as there are tokens
give these tokens, each leaving the scanner at the end of its token, and all further scans give the
end token and leave the scanner at the end of the line. -/
theorem tokenize_lossless (source : String) :
    Tiles source (tokenize source) ∧
      String.join ((tokenize source).map text) = source ∧
      (∀ n t, (tokenize source)[n]? = some t →
        ((Scanner.ofText source).skip n).scan.1 = t ∧
          ((Scanner.ofText source).skip (n + 1)).index = t.stop) ∧
      ∀ n, (tokenize source).length ≤ n →
        ((Scanner.ofText source).skip n).scan =
            (eof source.length, (Scanner.ofText source).skip n) ∧
          ((Scanner.ofText source).skip n).index = source.length := by
  refine ⟨tiles_tokenize source, ?_, ?_, ?_⟩
  · apply String.toList_injective
    rw [String.toList_join, List.flatMap_map]
    exact Scanner.flatMap_text_tokens _
  · intro n t ht
    have hscan := Scanner.scan_skip_of_getElem? ht
    refine ⟨hscan, ?_⟩
    rw [Scanner.skip_succ, Scanner.scan_index, hscan]
  · intro n hn
    have hrest := Scanner.rest_skip_of_le hn
    have hindex := ((Scanner.on_ofText source).skip n).index_of_nil hrest
    refine ⟨?_, hindex⟩
    rw [Scanner.scan_of_nil hrest, hindex]

end VectorCalc.Token
