import Mathlib
import VectorCalc.Proofs.Token.Spelling

/-!
# Places of tokens

The tokens of a line stand one behind the other. So no two of them begin at the same place, and the
tokens before a place have the text of the line up to it. Scanning looks no further ahead than one
character: lines that begin with the same lexemes begin with the same tokens, and the text before a
token may be followed by any lexemes with which it does not run together (`tokenize_extended`).
-/

namespace VectorCalc.Token

namespace Scanner

variable {s s' : Scanner} {t : Token} {front back : List Token}

/-- A token with others behind it is scanned first, and the others are scanned behind it. -/
theorem scan_of_tokens (h : s.tokens = t :: back) (hback : back ≠ []) :
    s.rest ≠ [] ∧ s.scan.1 = t ∧ s.scan.2.tokens = back := by
  by_cases hs : s.rest = []
  · rw [tokens_of_nil hs] at h
    cases h
    exact absurd rfl hback
  · rw [tokens_of_ne_nil hs] at h
    obtain ⟨ht, hts⟩ := List.cons.inj h
    exact ⟨hs, ht, hts⟩

/-! ## Starts -/

/-- No token starts before the scanner. -/
theorem index_le_start (s : Scanner) : ∀ t ∈ s.tokens, s.index ≤ t.start := by
  induction s using tokens.induct with
  | case1 s h =>
    rw [tokens_of_nil h]
    exact List.forall_mem_singleton.2 (Nat.le_refl _)
  | case2 s h ih =>
    rw [tokens_of_ne_nil h]
    refine List.forall_mem_cons.2 ⟨(scan_start s).ge, fun t ht => ?_⟩
    have hle := ih t ht
    rw [scan_index, scan_stop] at hle
    exact Nat.le_of_add_right_le hle

/-- Each token starts behind those before it. -/
theorem pairwise_start (s : Scanner) : s.tokens.Pairwise fun t u => t.start < u.start := by
  induction s using tokens.induct with
  | case1 s h =>
    rw [tokens_of_nil h]
    exact List.pairwise_singleton _ _
  | case2 s h ih =>
    rw [tokens_of_ne_nil h]
    refine List.pairwise_cons.2 ⟨fun u hu => ?_, ih⟩
    have hle := index_le_start s.scan.2 u hu
    have hpos : 0 < s.scan.1.text.length := by
      rw [Nat.pos_iff_ne_zero, ne_eq, String.length_eq_zero_iff]
      exact scan_text_ne_empty h
    rw [scan_index, scan_stop] at hle
    rw [scan_start]
    omega

/-! ## Tokens in front -/

/-- What has been cut before a token is the text up to its start. -/
theorem rest_of_tokens (h : s.tokens = front ++ t :: back) :
    ∃ cs, s.rest = front.flatMap (·.text.toList) ++ cs ∧
      t.start = s.index + (front.flatMap (·.text.toList)).length := by
  induction front generalizing s with
  | nil =>
    have hhead := s.head?_tokens
    rw [h] at hhead
    cases hhead
    exact ⟨s.rest, rfl, scan_start s⟩
  | cons p front ih =>
    obtain ⟨-, rfl, hts⟩ := scan_of_tokens h (by simp)
    obtain ⟨cs, hrest, hstart⟩ := ih hts
    refine ⟨cs, ?_, ?_⟩
    · rw [← scan_append, hrest, List.flatMap_cons, List.append_assoc]
    · rw [hstart, scan_index, scan_stop, List.flatMap_cons, List.length_append, String.length_toList,
        Nat.add_assoc]

/-- Scanners at the same index that give the same lexemes give the same tokens. -/
theorem prefix_of_lexemes {rest : List Lexeme} (h : s.tokens = front ++ t :: back)
    (h' : s'.tokens.map lexeme = front.map lexeme ++ rest) (hrest : rest ≠ [])
    (hindex : s.index = s'.index) : front <+: s'.tokens := by
  induction front generalizing s s' with
  | nil => exact List.nil_prefix
  | cons p front ih =>
    obtain ⟨-, rfl, hts⟩ := scan_of_tokens h (by simp)
    obtain ⟨p', ts', htokens, hp, hts'⟩ := List.map_eq_cons_iff.1 h'
    have hne : ts' ≠ [] := by
      rintro rfl
      exact List.append_ne_nil_of_right_ne_nil _ hrest hts'.symm
    obtain ⟨-, rfl, hafter⟩ := scan_of_tokens htokens hne
    have htext : s'.scan.1.text = s.scan.1.text := congrArg Lexeme.text hp
    -- the place of a token is where the scanner stands, and its end follows from its text
    have hscan : s'.scan.1 = s.scan.1 := by
      rw [Token.mk.injEq]
      refine ⟨congrArg Lexeme.kind hp, htext, ?_, ?_⟩
      · rw [scan_start, scan_start, hindex]
      · rw [scan_stop, scan_stop, htext, hindex]
    have hindex' : s.scan.2.index = s'.scan.2.index := by
      rw [scan_index, scan_index, hscan]
    rw [htokens, hscan, List.cons_prefix_cons]
    refine ⟨rfl, ?_⟩
    rw [← hafter]
    exact ih hts (hafter ▸ hts') hindex'

end Scanner

/-! ## Lines -/

variable {source : String} {t : Token} {front back : List Token}

/-- No two tokens of a line start at the same place. -/
theorem index_of_start {i j : Nat} {t u : Token} (ht : (tokenize source)[i]? = some t)
    (hu : (tokenize source)[j]? = some u) (h : t.start = u.start) : i = j := by
  obtain ⟨hi, rfl⟩ := List.getElem?_eq_some_iff.1 ht
  obtain ⟨hj, rfl⟩ := List.getElem?_eq_some_iff.1 hu
  have hpairwise := List.pairwise_iff_getElem.1 (Scanner.ofText source).pairwise_start
  rcases Nat.lt_trichotomy i j with hlt | heq | hgt
  · exact absurd h (hpairwise i j hi hj hlt).ne
  · exact heq
  · exact absurd h (hpairwise j i hj hi hgt).ne'

/-- The tokens before a token have the text of the line before it. -/
theorem text_before (h : tokenize source = front ++ t :: back) :
    front.flatMap (·.text.toList) = source.toList.take t.start := by
  obtain ⟨cs, hrest, hstart⟩ := Scanner.rest_of_tokens h
  have hsource : source.toList = front.flatMap (·.text.toList) ++ cs := hrest
  have hlength : t.start = (front.flatMap (·.text.toList)).length := by
    rw [hstart]
    exact Nat.zero_add _
  rw [hsource, hlength, List.take_left]

/-- The lexemes of the tokens before a token are the beginning of a reading of the line. -/
theorem reading_before (h : tokenize source = front ++ t :: back) :
    (∀ p ∈ front.map lexeme, p.Spelled) ∧
      (front.map lexeme).IsChain fun p q => ¬ RunsOn p q := by
  obtain ⟨ps, htokens, hreading⟩ := exists_reading source
  have hprefix : front.map lexeme <+: ps := by
    rw [h, List.map_append, List.map_cons] at htokens
    have hlength := congrArg List.length htokens
    simp only [List.length_append, List.length_cons, List.length_map, List.length_nil] at hlength
    refine List.prefix_of_prefix_length_le (htokens ▸ List.prefix_append _ _)
      (List.prefix_append ps _) ?_
    rw [List.length_map]
    omega
  obtain ⟨qs, rfl⟩ := hprefix
  exact ⟨fun p hp => hreading.spelled p (List.mem_append_left _ hp),
    (List.isChain_append.1 hreading.apart).1⟩

/-- The text before a token may go on with any lexemes with which it does not run together: the tokens
before it stay what they are, and the lexemes follow. -/
theorem tokenize_extended {ps : List Lexeme} (h : tokenize source = front ++ t :: back)
    (hspelled : ∀ p ∈ ps, p.Spelled) (hapart : ps.IsChain fun p q => ¬ RunsOn p q)
    (hjoin : ∀ p ∈ (front.map lexeme).getLast?, ∀ q ∈ ps.head?, ¬ RunsOn p q) {line : String}
    (hline : line = String.ofList (source.toList.take t.start) ++ String.join (ps.map Lexeme.text)) :
    (tokenize line).map lexeme = front.map lexeme ++ (ps ++ [Lexeme.final]) ∧
      front <+: tokenize line := by
  obtain ⟨hfront, hchain⟩ := reading_before h
  have hreading : Reading line (front.map lexeme ++ ps) := by
    refine ⟨List.forall_mem_append.2 ⟨hfront, hspelled⟩,
      List.isChain_append.2 ⟨hchain, hapart, hjoin⟩, ?_⟩
    rw [hline, List.map_append, String.join_append]
    congr 1
    rw [← String.toList_inj, toList_join_text, List.flatMap_map, String.toList_ofList]
    exact text_before h
  have hlexemes : (tokenize line).map lexeme = front.map lexeme ++ (ps ++ [Lexeme.final]) := by
    rw [lexemes_of_reading hreading, List.append_assoc]
  exact ⟨hlexemes, Scanner.prefix_of_lexemes h hlexemes (by simp) rfl⟩

end VectorCalc.Token
