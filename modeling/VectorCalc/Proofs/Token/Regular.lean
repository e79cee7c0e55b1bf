import Mathlib
import VectorCalc.Proofs.Token.Tiling

/-!
# Regular lists of tokens

A parser may rely on more than the tiling of a line. Spaces are cut as one token however many there
are, a number consists of digits, and nothing stands behind an end token. These three facts hold for
the tokens of a line and for what is left of them after some have been read (`Regular`).
-/

namespace VectorCalc.Token

/-! ## The shape of one token -/

/-- A number consists of digits. -/
theorem first_digits {c : Char} {cs : List Char} (h : (first c cs).1 = .number) :
    ∀ d ∈ (first c cs).2.1, d.isDigit = true := by
  rcases first_cases c cs with ⟨-, hf⟩ | ⟨-, -, hf⟩ | ⟨-, -, hd, hf⟩ | ⟨-, -, -, _, _, -, -, hf⟩ |
    ⟨-, -, -, -, hf⟩
  · rw [hf] at h
    cases h
  · rw [hf] at h
    dsimp only at h
    split at h <;> cases h
  · rw [hf]
    intro d hmem
    rcases List.mem_cons.1 hmem with rfl | hmem
    · exact hd
    · exact List.mem_takeWhile_imp hmem
  · rw [hf] at h
    cases h
  · rw [hf] at h
    rcases loneKind_cases c with hk | hk | hk <;> rw [hk] at h <;> cases h

/-- No space is left behind a space token. -/
theorem first_space_rest {c : Char} {cs : List Char} (h : (first c cs).1 = .space) {d : Char}
    {ds : List Char} (hrest : (first c cs).2.2 = d :: ds) : isSpace d = false := by
  have hc := (first_kind_eq_space_iff c cs).1 h
  have hfirst : (first c cs).2.2 = cs.dropWhile isSpace := by
    simp [first, hc]
  rw [hfirst] at hrest
  have hne : cs.dropWhile isSpace ≠ [] := by
    rw [hrest]
    exact List.cons_ne_nil _ _
  have hhead := List.head_dropWhile_not isSpace hne
  simpa only [hrest, List.head_cons] using hhead

namespace Scanner

variable {s : Scanner}

theorem scan_digits (h : s.scan.1.kind = .number) :
    ∀ d ∈ s.scan.1.text.toList, d.isDigit = true := by
  cases hrest : s.rest with
  | nil =>
    rw [scan_of_nil hrest] at h
    cases h
  | cons c cs =>
    rw [scan_of_cons hrest] at h ⊢
    rw [String.toList_ofList]
    exact first_digits h

/-- Behind a space token there is no other one. -/
theorem scan_scan_kind (h : s.scan.1.kind = .space) : s.scan.2.scan.1.kind ≠ .space := by
  cases hrest : s.rest with
  | nil =>
    rw [scan_of_nil hrest] at h
    cases h
  | cons c cs =>
    rw [scan_of_cons hrest] at h ⊢
    cases hafter : (first c cs).2.2 with
    | nil =>
      rw [scan_of_nil rfl]
      intro hspace
      cases hspace
    | cons d ds =>
      have hd := first_space_rest h hafter
      rw [scan_of_cons rfl]
      intro hspace
      rw [(first_kind_eq_space_iff d ds).1 hspace] at hd
      cases hd

end Scanner

/-! ## The shape of a list -/

/-- What a parser may rely on in a list of tokens. -/
structure Regular (ts : List Token) : Prop where
  /-- Between two spaces there is another token. -/
  spaces_apart : ts.IsChain fun t u => t.kind = .space → u.kind ≠ .space
  /-- Numbers consist of digits. -/
  digits : ∀ t ∈ ts, t.kind = .number → ∀ c ∈ t.text.toList, c.isDigit = true
  /-- Nothing stands behind an end token. -/
  eof_last : ∀ t rest, t :: rest <:+ ts → t.kind = .eof → rest = []

/-- What is left of a regular list is regular. -/
theorem Regular.suffix {ts rest : List Token} (h : Regular ts) (hrest : rest <:+ ts) :
    Regular rest where
  spaces_apart := h.spaces_apart.suffix hrest
  digits t ht := h.digits t (hrest.mem ht)
  eof_last t after hafter := h.eof_last t after (hafter.trans hrest)

theorem Regular.tail {t : Token} {ts : List Token} (h : Regular (t :: ts)) : Regular ts :=
  h.suffix (List.suffix_cons t ts)

namespace Scanner

theorem isChain_spaces (s : Scanner) :
    s.tokens.IsChain fun t u => t.kind = .space → u.kind ≠ .space := by
  induction s using tokens.induct with
  | case1 s h =>
    rw [tokens_of_nil h]
    exact .singleton _
  | case2 s h ih =>
    rw [tokens_of_ne_nil h, List.isChain_cons]
    refine ⟨fun u hu => ?_, ih⟩
    rw [head?_tokens, Option.mem_some_iff] at hu
    rw [← hu]
    exact scan_scan_kind

theorem digits_tokens (s : Scanner) :
    ∀ t ∈ s.tokens, t.kind = .number → ∀ c ∈ t.text.toList, c.isDigit = true := by
  induction s using tokens.induct with
  | case1 s h =>
    intro t ht hkind
    rw [tokens_of_nil h, List.mem_singleton] at ht
    rw [ht] at hkind
    cases hkind
  | case2 s h ih =>
    intro t ht
    rw [tokens_of_ne_nil h] at ht
    rcases List.mem_cons.1 ht with rfl | ht
    · exact scan_digits
    · exact ih t ht

end Scanner

theorem regular_tokenize (source : String) : Regular (tokenize source) where
  spaces_apart := Scanner.isChain_spaces _
  digits := Scanner.digits_tokens _
  eof_last := by
    rintro t rest ⟨front, hfront⟩ ht
    by_contra hne
    -- a token with others behind it is not the last one, so it is no end token
    have hmem : t ∈ (tokenize source).dropLast := by
      rw [← hfront, List.dropLast_append_of_ne_nil (List.cons_ne_nil _ _),
        List.dropLast_cons_of_ne_nil hne]
      exact List.mem_append_right _ List.mem_cons_self
    exact ((tiles_tokenize source).filled t hmem).1 ht

end VectorCalc.Token
