import VectorCalc.Proofs.Token.Words

/-!
# Lines up to spaces

Spaces keep the lexemes of a line apart and tell at a minus sign whether the number behind it belongs to
it. The rest of what they show is not for a parser to see. A glyph is a lexeme other than a space, with
a mark if it is a minus sign and a number follows it directly; `Token.glyphs` lists those of some tokens.

A space that is put between two lines keeps their glyphs (`letters_spaced`). It may stand next to
spaces with which the lines end and begin; these are one token then, which is what `Lexeme.merge` says.
-/

namespace VectorCalc.Token

/-- A lexeme other than a space. -/
structure Glyph where
  lexeme : Lexeme
  /-- It is a minus sign, and a number follows it directly. -/
  signs : Bool
deriving DecidableEq

namespace Lexeme

/-- A number stands in front. -/
def opensNumber (ps : List Lexeme) : Bool := ps.head?.any fun p => p.kind = .number

/-- The glyphs of some lexemes. -/
def glyphs : List Lexeme → List Glyph
  | [] => []
  | p :: ps =>
    if p.kind = .space then glyphs ps
    else ⟨p, p.kind = .operator && p.text = "-" && opensNumber ps⟩ :: glyphs ps

variable {p q : Lexeme} {ps qs : List Lexeme}

theorem glyphs_of_space (h : p.kind = .space) (ps : List Lexeme) :
    glyphs (p :: ps) = glyphs ps := if_pos h

theorem glyphs_of_ne (h : p.kind ≠ .space) (ps : List Lexeme) :
    glyphs (p :: ps) =
      ⟨p, p.kind = .operator && p.text = "-" && opensNumber ps⟩ :: glyphs ps := if_neg h

/-- What follows marks the last glyph only if it begins with a number. -/
theorem glyphs_append (h : opensNumber qs = false) : glyphs (ps ++ qs) = glyphs ps ++ glyphs qs := by
  induction ps with
  | nil => rfl
  | cons p ps ih =>
    rw [List.cons_append]
    by_cases hp : p.kind = .space
    · rw [glyphs_of_space hp, glyphs_of_space hp, ih]
    · have hopens : opensNumber (ps ++ qs) = opensNumber ps := by
        cases ps with
        | nil => exact h
        | cons q ps => rfl
      rw [glyphs_of_ne hp, glyphs_of_ne hp, ih, hopens, List.cons_append]

/-! ## Spaces side by side -/

/-- A lexeme put in front; if it is a space and another one stands in front, the two become one. -/
def push (p : Lexeme) : List Lexeme → List Lexeme
  | [] => [p]
  | q :: qs =>
    if p.kind = .space ∧ q.kind = .space then ⟨.space, p.text ++ q.text⟩ :: qs else p :: q :: qs

/-- Neighbouring spaces joined to one. -/
def merge (ps : List Lexeme) : List Lexeme := ps.foldr push []

theorem merge_cons (p : Lexeme) (ps : List Lexeme) : merge (p :: ps) = push p (merge ps) := rfl

/-- A lexeme is put in front as it is, or it is a space and so is what then stands in front. -/
theorem push_cases (p : Lexeme) (qs : List Lexeme) :
    push p qs = p :: qs ∧ (∀ q ∈ qs.head?, ¬ (p.kind = .space ∧ q.kind = .space)) ∨
      ∃ q rest, qs = q :: rest ∧ p.kind = .space ∧ q.kind = .space ∧
        push p qs = ⟨.space, p.text ++ q.text⟩ :: rest := by
  cases qs with
  | nil => exact .inl ⟨rfl, nofun⟩
  | cons q rest =>
    by_cases h : p.kind = .space ∧ q.kind = .space
    · exact .inr ⟨q, rest, rfl, h.1, h.2, if_pos h⟩
    · refine .inl ⟨if_neg h, fun r hr => ?_⟩
      cases hr
      exact h

theorem opensNumber_push (p : Lexeme) (qs : List Lexeme) :
    opensNumber (push p qs) = opensNumber (p :: qs) := by
  rcases push_cases p qs with ⟨h, -⟩ | ⟨q, rest, -, hp, -, h⟩
  · rw [h]
  · rw [h]
    simp [opensNumber, hp]

theorem opensNumber_merge (ps : List Lexeme) : opensNumber (merge ps) = opensNumber ps := by
  cases ps with
  | nil => rfl
  | cons p ps => exact opensNumber_push p (merge ps)

theorem glyphs_push (p : Lexeme) (qs : List Lexeme) : glyphs (push p qs) = glyphs (p :: qs) := by
  rcases push_cases p qs with ⟨h, -⟩ | ⟨q, rest, rfl, hp, hq, h⟩
  · rw [h]
  · rw [h, glyphs_of_space hp, glyphs_of_space hq, glyphs_of_space rfl]

/-- To join spaces changes no glyph. -/
theorem glyphs_merge (ps : List Lexeme) : glyphs (merge ps) = glyphs ps := by
  induction ps with
  | nil => rfl
  | cons p ps ih =>
    rw [merge_cons, glyphs_push, glyphs, glyphs, opensNumber_merge, ih]

theorem join_push (p : Lexeme) (qs : List Lexeme) :
    String.join ((push p qs).map text) = p.text ++ String.join (qs.map text) := by
  rcases push_cases p qs with ⟨h, -⟩ | ⟨q, rest, rfl, -, -, h⟩
  · rw [h, List.map_cons, String.join_cons]
  · rw [h, List.map_cons, String.join_cons, List.map_cons, String.join_cons, String.append_assoc]

theorem join_merge (ps : List Lexeme) :
    String.join ((merge ps).map text) = String.join (ps.map text) := by
  induction ps with
  | nil => rfl
  | cons p ps ih =>
    rw [merge_cons, join_push, ih, List.map_cons, String.join_cons]

theorem spelled_push (hp : p.Spelled) (hqs : ∀ q ∈ qs, q.Spelled) :
    ∀ q ∈ push p qs, q.Spelled := by
  rcases push_cases p qs with ⟨h, -⟩ | ⟨q, rest, rfl, hspace, hspace', h⟩
  · rw [h]
    exact List.forall_mem_cons.2 ⟨hp, hqs⟩
  · obtain ⟨hq, hrest⟩ := List.forall_mem_cons.1 hqs
    obtain ⟨hne, hcs⟩ := (spelled_space_iff hspace).1 hp
    obtain ⟨-, hds⟩ := (spelled_space_iff hspace').1 hq
    rw [h]
    refine List.forall_mem_cons.2 ⟨(spelled_space_iff rfl).2 ?_, hrest⟩
    dsimp only
    rw [String.toList_append]
    refine ⟨fun hnil => hne (List.append_eq_nil_iff.1 hnil).1, fun c hc => ?_⟩
    rcases List.mem_append.1 hc with hc | hc
    · exact hcs c hc
    · exact hds c hc

theorem spelled_merge (h : ∀ p ∈ ps, p.Spelled) : ∀ p ∈ merge ps, p.Spelled := by
  induction ps with
  | nil => exact h
  | cons p ps ih =>
    obtain ⟨hp, hps⟩ := List.forall_mem_cons.1 h
    exact spelled_push hp (ih hps)

theorem apart_push (hp : p.Spelled) (hqs : ∀ q ∈ qs, q.Spelled)
    (hapart : qs.IsChain fun p q => ¬ RunsOn p q)
    (hhead : ∀ q ∈ qs.head?, RunsOn p q → p.kind = .space ∧ q.kind = .space) :
    (push p qs).IsChain fun p q => ¬ RunsOn p q := by
  rcases push_cases p qs with ⟨h, hspaces⟩ | ⟨q, rest, rfl, -, hspace, h⟩
  · rw [h]
    exact List.isChain_cons.2 ⟨fun q hq hruns => hspaces q hq (hhead q hq hruns), hapart⟩
  · obtain ⟨hrest, hchain⟩ := List.isChain_cons.1 hapart
    have hspelled := spelled_push hp hqs
    rw [h] at hspelled ⊢
    refine List.isChain_cons.2 ⟨fun r hr => ?_, hchain⟩
    -- behind the old space there is no other one
    have hr' : r.kind ≠ .space := fun hr' => hrest r hr (.spaces hspace hr')
    exact not_runsOn_of_space (hspelled _ List.mem_cons_self) rfl hr'

/-- What stands in front stays there, unless it is a space, and then it is one still. -/
theorem mem_head?_merge (h : q ∈ (merge (p :: ps)).head?) :
    q = p ∨ p.kind = .space ∧ q.kind = .space := by
  rw [merge_cons] at h
  rcases push_cases p (merge ps) with ⟨hpush, -⟩ | ⟨r, rest, -, hp, -, hpush⟩
  · rw [hpush] at h
    cases h
    exact .inl rfl
  · rw [hpush] at h
    cases h
    exact .inr ⟨hp, rfl⟩

/-- If only neighbouring spaces run together, all lexemes are read apart once these are joined. -/
theorem apart_merge (hspelled : ∀ p ∈ ps, p.Spelled)
    (h : ps.IsChain fun p q => RunsOn p q → p.kind = .space ∧ q.kind = .space) :
    (merge ps).IsChain fun p q => ¬ RunsOn p q := by
  induction ps with
  | nil => exact .nil
  | cons p ps ih =>
    obtain ⟨hp, hps⟩ := List.forall_mem_cons.1 hspelled
    obtain ⟨hhead, hchain⟩ := List.isChain_cons.1 h
    have hmerged := spelled_merge hps
    refine apart_push hp hmerged (ih hps hchain) ?_
    cases ps with
    | nil => exact nofun
    | cons q qs =>
      intro r hr hruns
      rcases mem_head?_merge hr with rfl | ⟨-, hr'⟩
      · exact hhead r rfl hruns
      · refine ⟨?_, hr'⟩
        by_contra hspace
        exact not_runsOn_space hspace (hmerged r (List.mem_of_mem_head? hr)) hr' hruns

/-! ## Lines -/

/-- A space between two lines is read with the spaces around it. -/
theorem reading_merge {x y : String} (hx : Reading x ps) (hy : Reading y qs) :
    Reading (x ++ " " ++ y) (merge (ps ++ gap :: qs)) := by
  have hspelled : ∀ p ∈ ps ++ gap :: qs, p.Spelled := by
    intro p hp
    rcases List.mem_append.1 hp with hp | hp
    · exact hx.spelled p hp
    · rcases List.mem_cons.1 hp with rfl | hp
      · exact spelled_gap
      · exact hy.spelled p hp
  refine ⟨spelled_merge hspelled, apart_merge hspelled ?_, ?_⟩
  · rw [List.isChain_append, List.isChain_cons]
    refine ⟨hx.apart.imp fun p q h hruns => absurd hruns h, ⟨fun q _ hruns => ?_,
      hy.apart.imp fun p q h hruns => absurd hruns h⟩, fun p _ q hq hruns => ?_⟩
    · refine ⟨rfl, ?_⟩
      by_contra hspace
      exact not_runsOn_of_space spelled_gap rfl hspace hruns
    · cases hq
      refine ⟨?_, rfl⟩
      by_contra hspace
      exact not_runsOn_space hspace spelled_gap rfl hruns
  · rw [join_merge, List.map_append, String.join_append, hx.joined, List.map_cons,
      String.join_cons, hy.joined, ← String.append_assoc]
    rfl

end Lexeme

/-- The glyphs of some tokens. -/
def glyphs (ts : List Token) : List Glyph := Lexeme.glyphs (ts.map lexeme)

/-- The glyph of the end token. -/
def Glyph.final : Glyph := ⟨.final, false⟩

/-- The glyphs of a line without the end token. -/
def letters (source : String) : List Glyph := (glyphs (tokenize source)).dropLast

open Lexeme

theorem glyphs_tokenize_of_reading {source : String} {ps : List Lexeme} (h : Reading source ps) :
    glyphs (tokenize source) = Lexeme.glyphs ps ++ [Glyph.final] := by
  rw [glyphs, lexemes_of_reading h, glyphs_append rfl]
  rfl

theorem letters_of_reading {source : String} {ps : List Lexeme} (h : Reading source ps) :
    letters source = Lexeme.glyphs ps := by
  rw [letters, glyphs_tokenize_of_reading h, List.dropLast_concat]

theorem glyphs_tokenize (source : String) :
    glyphs (tokenize source) = letters source ++ [Glyph.final] := by
  obtain ⟨ps, -, hreading⟩ := exists_reading source
  rw [letters_of_reading hreading, glyphs_tokenize_of_reading hreading]

/-- A space between two lines keeps their glyphs. -/
theorem letters_spaced (x y : String) : letters (x ++ " " ++ y) = letters x ++ letters y := by
  obtain ⟨ps, -, hx⟩ := exists_reading x
  obtain ⟨qs, -, hy⟩ := exists_reading y
  rw [letters_of_reading (reading_merge hx hy), glyphs_merge, glyphs_append rfl,
    letters_of_reading hx, letters_of_reading hy]
  rfl

/-- An operator on its own is one glyph, without a mark. -/
theorem letters_operator {symbol : String} (h : symbol ∈ operators) :
    letters symbol = [⟨⟨.operator, symbol⟩, false⟩] := by
  have hreading : Reading symbol [⟨.operator, symbol⟩] := by
    refine ⟨fun p hp => ?_, .singleton _, by simp⟩
    rw [List.mem_singleton.1 hp]
    show Spells .operator symbol.toList
    exact .operator (by rwa [String.ofList_toList])
  rw [letters_of_reading hreading]
  simp [Lexeme.glyphs, opensNumber]

end VectorCalc.Token
