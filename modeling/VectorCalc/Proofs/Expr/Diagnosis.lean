import VectorCalc.Proofs.Expr.Run
import VectorCalc.Proofs.Token.Spelling

/-!
# What a fault says of its line

The fault of a line that cannot be parsed describes a token of that line: its span is the span of the
token, and the text that it shows is the text of the line there. An illegal character that is reported
is the first one of the line, and a line with one is never parsed.
-/

namespace VectorCalc

open Token

namespace Token

variable {source : String} {t : Token}

/-! ## Tokens in their line -/

/-- A token is as long as its text. -/
theorem stop_of_mem (h : t ∈ tokenize source) : t.stop = t.start + t.text.length := by
  obtain ⟨n, hn⟩ := List.mem_iff_getElem?.1 h
  rw [← Scanner.scan_skip_of_getElem? hn, Scanner.scan_start, Scanner.scan_stop]

/-- The text of a token is what stands in its place. -/
theorem text_of_mem (h : t ∈ tokenize source) :
    t.text = String.ofList (source.toList.extract t.start t.stop) := by
  rw [← String.toList_inj, String.toList_ofList]
  exact ((tiles_tokenize source).text_eq t h).2

/-- An illegal token is one character. -/
theorem illegal_of_mem (h : t ∈ tokenize source) (hkind : t.kind = .illegal) :
    ∃ c, t.text = String.singleton c ∧ source.toList[t.start]? = some c := by
  obtain ⟨ps, htokens, hreading⟩ := exists_reading source
  have hmem : lexeme t ∈ ps := by
    have hlexeme : lexeme t ∈ (tokenize source).map lexeme := List.mem_map_of_mem h
    rw [htokens, List.mem_append, List.mem_singleton] at hlexeme
    refine hlexeme.resolve_right fun hfinal => ?_
    rw [lexeme, hkind] at hfinal
    cases hfinal
  obtain ⟨c, hc⟩ : ∃ c, t.text.toList = [c] := by
    have hspells : Spells t.kind t.text.toList := hreading.spelled _ hmem
    rw [hkind] at hspells
    generalize t.text.toList = cs at hspells
    cases hspells with
    | illegal => exact ⟨_, rfl⟩
  refine ⟨c, String.toList_inj.1 (hc.trans (String.toList_singleton c).symm), ?_⟩
  have hslice := ((tiles_tokenize source).text_eq t h).2
  rw [hc, List.extract_eq_take_drop] at hslice
  have hhead := congrArg (·[0]?) hslice
  simp only [List.getElem?_cons_zero, List.getElem?_take, List.getElem?_drop, Nat.add_zero] at hhead
  split_ifs at hhead
  exact hhead.symm

end Token

namespace Expr

open Parse

variable {s : Settings} {b : Bindings} {source : String}

/-! ## Faults of a line -/

/-- How a line shows a token of its own: the kind, and what stands in its place. -/
def shownIn (source : String) (t : Token) : String :=
  if t.kind = .eof then "EOF"
  else t.kind.name ++ "(" ++ String.ofList (source.toList.extract t.start t.stop) ++ ")"

/-- Messages show the tokens of a line as the line does. -/
theorem shownToken_of_mem {t : Token} (h : t ∈ tokenize source) :
    shownToken t = shownIn source t := by
  rw [shownIn, ← text_of_mem h, shownToken]
  split_ifs with heof
  · rw [heof]
    rfl
  · rfl

/-- A problem is reported with the span and the text of a token of the line. -/
theorem exists_of_malformed {problem : Problem} {span : Span} {expected : List String}
    {found : Option String} (hcap : 2 ≤ s.capacity)
    (h : parse s b source = .error (.malformed problem span expected found)) :
    ∃ t ∈ tokenize source, span = spanOf t ∧ 0 ≤ span.start ∧ span.start ≤ span.stop ∧
      span.stop ≤ source.length ∧ found = some (shownIn source t) := by
  obtain ⟨front, t, back, stage, problem', expected', hsource, -, -, hf⟩ :=
    exists_of_parse_error hcap h rfl
  have ht : t ∈ tokenize source := hsource ▸ List.mem_append_right _ List.mem_cons_self
  have hle := ((tiles_tokenize source).text_eq t ht).1
  have hstop := stop_of_mem ht
  unfold faultAt at hf
  split_ifs at hf
  cases hf
  refine ⟨t, ht, rfl, Int.natCast_nonneg _, Int.ofNat_le.2 ?_, Int.ofNat_le.2 hle, ?_⟩
  · rw [hstop]
    exact Nat.le_add_right _ _
  · rw [shownToken_of_mem ht]

/-- An illegal character is reported at the first illegal token, which is that character. -/
theorem exists_of_illegalCharacter {char : String} {span : Span} (hcap : 2 ≤ s.capacity)
    (h : parse s b source = .error (.illegalCharacter char span)) :
    ∃ t, (tokenize source).find? (·.kind = .illegal) = some t ∧ span = spanOf t ∧
      span.stop = span.start + 1 ∧
      ∃ c, source.toList[t.start]? = some c ∧ char = String.singleton c := by
  obtain ⟨front, t, back, stage, problem, expected, hsource, hfront, -, hf⟩ :=
    exists_of_parse_error hcap h rfl
  have ht : t ∈ tokenize source := hsource ▸ List.mem_append_right _ List.mem_cons_self
  have hlegal := Stage.legal_of_take hfront
  unfold faultAt at hf
  split_ifs at hf with hkind
  cases hf
  obtain ⟨c, htext, hc⟩ := illegal_of_mem ht hkind
  refine ⟨t, ?_, rfl, ?_, c, hc, htext⟩
  · rw [List.find?_eq_some_iff_append]
    refine ⟨decide_eq_true hkind, front, back, hsource, fun u hu => ?_⟩
    simpa using hlegal u hu
  · have hstop := stop_of_mem ht
    rw [htext, String.length_singleton] at hstop
    change (t.stop : Int) = t.start + 1
    rw [hstop]
    rfl

/-- What a fault says of its line is so. A problem is reported at a token of the line, with its span and
its text; an illegal character is reported at the first illegal token; and a line with an illegal token
is not parsed. -/
theorem parse_diagnosis (hcap : 2 ≤ s.capacity) (b : Bindings) (source : String) :
    (∀ problem span expected found,
      parse s b source = .error (.malformed problem span expected found) →
        ∃ t ∈ tokenize source, span = spanOf t ∧ 0 ≤ span.start ∧ span.start ≤ span.stop ∧
          span.stop ≤ source.length ∧ found = some (shownIn source t)) ∧
      (∀ char span, parse s b source = .error (.illegalCharacter char span) →
        ∃ t, (tokenize source).find? (·.kind = .illegal) = some t ∧ span = spanOf t ∧
          span.stop = span.start + 1 ∧
          ∃ c, source.toList[t.start]? = some c ∧ char = String.singleton c) ∧
      ((∃ t ∈ tokenize source, t.kind = .illegal) → ∀ e, parse s b source ≠ .ok e) := by
  refine ⟨fun _ _ _ _ => exists_of_malformed hcap, fun _ _ => exists_of_illegalCharacter hcap, ?_⟩
  rintro ⟨t, ht, hkind⟩ e h
  exact legal_of_parse hcap h t ht hkind

/-- An operator where a value is due, and the first of two illegal characters. -/
theorem parse_diagnosis_assignments :
    (∃ t ∈ tokenize "x = +", spanOf t = ⟨4, 5⟩ ∧ shownIn "x = +" t = "OPERATOR(+)") ∧
      (∃ t, (tokenize "x = # $").find? (·.kind = .illegal) = some t ∧ spanOf t = ⟨4, 5⟩ ∧
        ∃ c, "x = # $".toList[t.start]? = some c ∧ "#" = String.singleton c) ∧
      ∀ e, parse .default .empty "x = # $" ≠ .ok e := by
  obtain ⟨t, ht, hspan, -, -, -, hfound⟩ :=
    (parse_diagnosis (s := .default) (by decide) .empty "x = +").1 .assignedValueMissing ⟨4, 5⟩
      ["NUMBER", "IDENTIFIER"] (some "OPERATOR(+)") (by decide +kernel)
  obtain ⟨-, hillegal, hstuck⟩ :=
    parse_diagnosis (s := .default) (by decide) .empty "x = # $"
  obtain ⟨u, hu, hspan', -, hchar⟩ := hillegal "#" ⟨4, 5⟩ (by decide +kernel)
  have hkind : u.kind = .illegal := by simpa using List.find?_some hu
  exact ⟨⟨t, ht, hspan.symm, (Option.some.inj hfound).symm⟩, ⟨u, hu, hspan'.symm, hchar⟩,
    hstuck ⟨u, List.mem_of_find?_eq_some hu, hkind⟩⟩

end Expr

end VectorCalc
