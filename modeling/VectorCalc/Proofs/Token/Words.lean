import VectorCalc.Proofs.Token.Spelling

/-!
# Words with spaces between them

Some lexemes that are written side by side without a space are a word, if no two of them run together.
Words may be put into a line with single spaces between them, and nothing else is asked of them: a
space runs together with another space only, and words have none.
-/

namespace VectorCalc.Token.Lexeme

/-- A single space. -/
def gap : Lexeme := ⟨.space, " "⟩

/-- Lexemes side by side that are read apart, without a space. -/
structure IsWord (w : List Lexeme) : Prop where
  ne_nil : w ≠ []
  spelled : ∀ p ∈ w, p.Spelled
  filled : ∀ p ∈ w, p.kind ≠ .space
  apart : w.IsChain fun p q => ¬ RunsOn p q

/-- The lexemes of words with single spaces between them. -/
def spaced (ws : List (List Lexeme)) : List Lexeme := [gap].intercalate ws

variable {p q : Lexeme} {w v : List Lexeme} {ws vs : List (List Lexeme)}

/-! ## Spaces -/

theorem spelled_gap : gap.Spelled := by
  show Spells .space [' ']
  exact .space (by simp [isSpace])

/-- The text of a space. -/
theorem spelled_space_iff (h : p.kind = .space) :
    p.Spelled ↔ p.text.toList ≠ [] ∧ ∀ c ∈ p.text.toList, isSpace c = true := by
  rw [Spelled, h]
  constructor
  · intro hspells
    generalize p.text.toList = cs at hspells
    cases hspells with
    | space hcs => exact ⟨List.cons_ne_nil _ _, hcs⟩
  · rintro ⟨hne, hcs⟩
    obtain ⟨c, cs, hcons⟩ := List.exists_cons_of_ne_nil hne
    rw [hcons] at hcs ⊢
    exact .space hcs

/-- A space runs together with another one only. -/
theorem not_runsOn_of_space (h : p.Spelled) (hp : p.kind = .space) (hq : q.kind ≠ .space) :
    ¬ RunsOn p q := by
  -- no operator is spelled as a space
  have htext : p.text ∉ operators := by
    intro hmem
    rw [h.kind_of_operator hmem] at hp
    cases hp
  intro hruns
  cases hruns with
  | spaces _ hspace => exact hq hspace
  | numbers hnumber =>
    rw [hp] at hnumber
    cases hnumber
  | word hword =>
    rcases hword with hname | hword
    · rw [hp] at hname
      cases hname
    · have hwords : ["min", "max"] ⊆ operators := by decide
      exact htext (hwords hword)
  | plus hplus => exact htext (hplus ▸ by decide)
  | star hstar => exact htext (hstar ▸ by decide)

theorem not_runsOn_space (hp : p.kind ≠ .space) (h : q.Spelled) (hq : q.kind = .space) :
    ¬ RunsOn p q := by
  have hfirst : ∀ c, q.text.toList.head? = some c → isSpace c = true := fun c hc =>
    ((spelled_space_iff hq).1 h).2 c (List.mem_of_mem_head? hc)
  intro hruns
  cases hruns with
  | spaces hspace => exact hp hspace
  | numbers _ hnumber =>
    rw [hq] at hnumber
    cases hnumber
  | word _ hc hname =>
    have hspace := hfirst _ hc
    rcases hname with halpha | hdigit | rfl
    · rw [isSpace_of_isAlpha halpha] at hspace
      cases hspace
    · rw [isSpace_of_isDigit hdigit] at hspace
      cases hspace
    · cases hspace
  | plus _ hc hsign =>
    have hspace := hfirst _ hc
    rcases hsign with rfl | rfl <;> cases hspace
  | star _ hc hsign =>
    have hspace := hfirst _ hc
    rcases hsign with rfl | rfl | rfl <;> cases hspace

/-! ## Words -/

/-- A lexeme that is no space is a word. -/
theorem isWord_singleton (hp : p.Spelled) (hspace : p.kind ≠ .space) : IsWord [p] where
  ne_nil := List.cons_ne_nil _ _
  spelled := by
    intro q hq
    rw [List.mem_singleton.1 hq]
    exact hp
  filled := by
    intro q hq
    rw [List.mem_singleton.1 hq]
    exact hspace
  apart := .singleton _

@[simp] theorem spaced_singleton (w : List Lexeme) : spaced [w] = w :=
  List.intercalate_singleton

theorem spaced_cons_cons (w v : List Lexeme) (vs : List (List Lexeme)) :
    spaced (w :: v :: vs) = w ++ gap :: spaced (v :: vs) := by
  rw [spaced, List.intercalate_cons_cons, List.append_assoc]
  rfl

theorem spaced_append (hws : ws ≠ []) (hvs : vs ≠ []) :
    spaced (ws ++ vs) = spaced ws ++ gap :: spaced vs := by
  obtain ⟨v, vs, rfl⟩ := List.exists_cons_of_ne_nil hvs
  induction ws with
  | nil => exact absurd rfl hws
  | cons w ws ih =>
    cases ws with
    | nil => rw [spaced_singleton, List.singleton_append, spaced_cons_cons]
    | cons w' ws =>
      have hrest := ih (List.cons_ne_nil w' ws)
      rw [List.cons_append] at hrest ⊢
      rw [List.cons_append, spaced_cons_cons, hrest, spaced_cons_cons, List.append_assoc,
        List.cons_append]

/-! ## Lines of words -/

/-- A line of words begins as its first word. -/
theorem mem_of_head?_spaced (hw : w ≠ []) (hq : q ∈ (spaced (w :: ws)).head?) : q ∈ w := by
  obtain ⟨p, ps, rfl⟩ := List.exists_cons_of_ne_nil hw
  have hp : (spaced ((p :: ps) :: ws)).head? = some p := by
    cases ws with
    | nil => rw [spaced_singleton, List.head?_cons]
    | cons => rw [spaced_cons_cons, List.cons_append, List.head?_cons]
  rw [hp] at hq
  cases hq
  exact List.mem_cons_self

theorem spelled_spaced (h : ∀ w ∈ ws, IsWord w) : ∀ p ∈ spaced ws, p.Spelled := by
  induction ws with
  | nil => exact List.forall_mem_nil _
  | cons w ws ih =>
    obtain ⟨hw, hws⟩ := List.forall_mem_cons.1 h
    cases ws with
    | nil =>
      rw [spaced_singleton]
      exact hw.spelled
    | cons v vs =>
      rw [spaced_cons_cons]
      intro p hp
      rcases List.mem_append.1 hp with hp | hp
      · exact hw.spelled p hp
      · rcases List.mem_cons.1 hp with rfl | hp
        · exact spelled_gap
        · exact ih hws p hp

/-- Words with spaces between them stay apart. -/
theorem isChain_spaced (h : ∀ w ∈ ws, IsWord w) :
    (spaced ws).IsChain fun p q => ¬ RunsOn p q := by
  induction ws with
  | nil => exact .nil
  | cons w ws ih =>
    obtain ⟨hw, hws⟩ := List.forall_mem_cons.1 h
    cases ws with
    | nil =>
      rw [spaced_singleton]
      exact hw.apart
    | cons v vs =>
      have hv := hws v List.mem_cons_self
      rw [spaced_cons_cons, List.isChain_append, List.isChain_cons]
      refine ⟨hw.apart, ⟨fun q hq => ?_, ih hws⟩, fun p hp q hq => ?_⟩
      · exact not_runsOn_of_space spelled_gap rfl (hv.filled q (mem_of_head?_spaced hv.ne_nil hq))
      · cases hq
        exact not_runsOn_space (hw.filled p (List.mem_of_getLast? hp)) spelled_gap rfl

theorem join_spaced (ws : List (List Lexeme)) :
    String.join ((spaced ws).map text) =
      " ".intercalate (ws.map fun w => String.join (w.map text)) := by
  induction ws with
  | nil => rfl
  | cons w ws ih =>
    cases ws with
    | nil => rw [spaced_singleton, List.map_singleton, String.intercalate_singleton]
    | cons v vs =>
      have hline : " ".intercalate ((w :: v :: vs).map fun w => String.join (w.map text)) =
          String.join (w.map text) ++ " " ++
            " ".intercalate ((v :: vs).map fun w => String.join (w.map text)) :=
        String.intercalate_cons_cons
      rw [spaced_cons_cons, List.map_append, String.join_append, List.map_cons, String.join_cons,
        ih, hline, String.append_assoc]
      rfl

/-- Words with single spaces between them are read as these words. -/
theorem reading_spaced (h : ∀ w ∈ ws, IsWord w) :
    Reading (" ".intercalate (ws.map fun w => String.join (w.map text))) (spaced ws) :=
  ⟨spelled_spaced h, isChain_spaced h, join_spaced ws⟩

end VectorCalc.Token.Lexeme
