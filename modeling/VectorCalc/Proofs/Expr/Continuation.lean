import VectorCalc.Proofs.Expr.Run
import VectorCalc.Proofs.Machine.Printed
import VectorCalc.Proofs.Token.Places

/-!
# The first token that cannot be continued

The parser reports the first token with which no line begins. It reports none too early: whatever has
been taken before it can be completed to a line, and each stage has its completion
(`Stage.completion`). It reports none too late: a token that a stage does not take ends the parse of
every line that begins with the same lexemes.
-/

namespace VectorCalc.Expr

open Token Parse

namespace Parse.Stage

variable {bound : String → Bool} {stage : Stage} {t : Token} {ts front back : List Token}

/-! ## Completions -/

/-- The number one. -/
def one : Lexeme := .ofNat 1

/-- An assignment sign. -/
def becomes : Lexeme := ⟨.assign, "="⟩

/-- Lexemes that complete a line. -/
def completion : Stage → List Lexeme
  | .start | .operand | .value => [.minus, one]
  | .sign | .minus | .valueSign => [one]
  | .named _ => [becomes, .minus, one]
  | .literal | .closed | .assigned | .finished => []

/-- A token with a given lexeme. -/
def placed (p : Lexeme) : Token := ⟨p.kind, p.text, 0, 0⟩

/-- A completion is taken, and the end of the line behind it. -/
theorem take_completion (hstage : stage ≠ finished)
    (h : ts.map lexeme = stage.completion ++ [.final]) : stage.take bound ts = .ok finished := by
  have hplaced : ((stage.completion ++ [Lexeme.final]).map placed).map lexeme =
      stage.completion ++ [.final] := by
    rw [List.map_map]
    exact List.map_id _
  have htaken : stage.take bound ((stage.completion ++ [Lexeme.final]).map placed) = .ok finished := by
    cases stage with
    | finished => exact absurd rfl hstage
    | _ => rfl
  exact take_of_lexemes (h.trans hplaced.symm) htaken

theorem spelled_completion (stage : Stage) : ∀ p ∈ stage.completion, p.Spelled := by
  have hone : one.Spelled := Lexeme.spelled_ofNat 1
  have hbecomes : becomes.Spelled := .assign
  cases stage <;> simp [completion, hone, hbecomes, Lexeme.spelled_minus]

/-- Nothing runs on into a minus sign or an assignment sign. -/
theorem not_runsOn_sign {q : Lexeme} (hq : q = .minus ∨ q = becomes) (p : Lexeme) :
    ¬ RunsOn p q := by
  intro h
  rcases hq with rfl | rfl <;> cases h with
  | spaces _ hq | numbers _ hq => cases hq
  | word _ hc hq | plus _ hc hq | star _ hc hq =>
    cases hc
    revert hq
    decide

theorem apart_completion (stage : Stage) :
    stage.completion.IsChain fun p q => ¬ RunsOn p q := by
  have hminus := Lexeme.not_runsOn_minus one
  have hbecomes := not_runsOn_sign (.inl rfl) becomes
  cases stage <;> simp [completion, hminus, hbecomes]

/-- What has been taken does not run on into the completion: a number is due behind a minus sign
only. -/
theorem joined_completion (h : start.take bound front = .ok stage) (hstage : stage ≠ finished) :
    ∀ p ∈ (front.map lexeme).getLast?, ∀ q ∈ stage.completion.head?, ¬ RunsOn p q := by
  intro p hp q hq
  by_cases hskips : stage.skips = true
  · refine not_runsOn_sign ?_ p
    cases stage <;> simp_all [completion, skips]
  · obtain ⟨t, ht, hlast⟩ := last_of_take h rfl (Bool.eq_false_iff.2 hskips)
    have hm : isMinus t = true := (hlast.resolve_right fun heof => hstage heof.2).1
    rw [List.getLast?_map, Option.mem_map] at hp
    obtain ⟨t', ht', rfl⟩ := hp
    cases Option.mem_unique ht ht'
    have hminus : lexeme t = .minus := by
      rw [lexeme, kind_of_isMinus hm, text_of_isMinus hm]
      rfl
    rw [hminus]
    exact Lexeme.not_runsOn_minus q

/-- With the end of a line everything has been taken. -/
theorem ne_finished_of_take (hreg : Regular (front ++ t :: back))
    (h : start.take bound front = .ok stage) : stage ≠ finished := by
  rintro rfl
  obtain ⟨z, hz, hlast⟩ := last_of_take h rfl rfl
  obtain ⟨front, rfl⟩ := List.getLast?_eq_some_iff.1 hz
  rw [List.append_assoc] at hreg
  have heof : z.kind = .eof := (hlast.resolve_left fun hm => hm.2 rfl).1
  have hnil := hreg.eof_last z (t :: back) (List.suffix_append _ _) heof
  cases hnil

end Parse.Stage

/-! ## Faults of lines -/

open Parse.Stage

variable {s : Settings} {source : String} {b : Bindings} {f : Fault} {t : Token}
  {front back : List Token}

/-- The text before a token, up to which a line can be taken, can be completed. -/
theorem exists_completion {stage : Stage} (hcap : 2 ≤ s.capacity)
    (hle : (s.capacity : Int) ≤ Cursor.capacityLimit) (hsource : tokenize source = front ++ t :: back)
    (h : start.take b.contains front = .ok stage) (hstage : stage ≠ .finished) :
    ∃ ext e, parse s b (String.ofList (source.toList.take t.start) ++ ext) = .ok e ∧
      front <+: tokenize (String.ofList (source.toList.take t.start) ++ ext) := by
  refine ⟨String.join (stage.completion.map Lexeme.text), ?_⟩
  generalize hline : String.ofList (source.toList.take t.start) ++
    String.join (stage.completion.map Lexeme.text) = line
  obtain ⟨hlexemes, rest, hrest⟩ := tokenize_extended hsource (spelled_completion stage)
    (apart_completion stage) (joined_completion h hstage) hline.symm
  rw [← hrest, List.map_append] at hlexemes
  have hcompletion := List.append_cancel_left hlexemes
  have htake : start.take b.contains (tokenize line) = .ok .finished := by
    rw [← hrest, take_append, h]
    exact take_completion hstage hcompletion
  rw [take_tokenize hcap hle] at htake
  cases hparse : parse s b line with
  | error f =>
    rw [hparse] at htake
    cases htake
  | ok e => exact ⟨e, rfl, rest, hrest⟩

/-- No line begins with lexemes that end in one which is not taken. -/
theorem parse_ne_ok_of_lexemes {stage : Stage} (hcap : 2 ≤ s.capacity)
    (hle : (s.capacity : Int) ≤ Cursor.capacityLimit) (h : start.take b.contains front = .ok stage)
    (ht : stage.next b.contains t = .error f) {line : String}
    (hline : (front ++ [t]).map lexeme <+: (tokenize line).map lexeme) (e : Expr) :
    parse s b line ≠ .ok e := by
  intro hparse
  have htake : start.take b.contains (tokenize line) = .ok .finished := by
    rw [take_tokenize hcap hle, hparse]
    rfl
  obtain ⟨us, hus⟩ := hline
  obtain ⟨taken, rest, hsplit, htaken, -⟩ := List.map_eq_append_iff.1 hus.symm
  rw [hsplit, take_append] at htake
  obtain ⟨stage', hstage', -⟩ := bind_eq_ok_iff.1 htake
  have hfront : start.take b.contains (front ++ [t]) = .ok stage' :=
    take_of_lexemes htaken.symm hstage'
  rw [take_append, h] at hfront
  change stage.take b.contains [t] = .ok stage' at hfront
  rw [take_cons, ht] at hfront
  cases hfront

/-- A fault that reports a token reports the first one with which the line cannot go on: what stands
before it can be completed to a line, which begins with the same tokens, and no line begins with the
lexemes up to it. -/
theorem parse_reports_first {k : Nat} (hcap : 2 ≤ s.capacity) (h : parse s b source = .error f)
    (ht : (tokenize source)[k]? = some t) (hspan : f.span? = some (spanOf t)) :
    (∃ ext e, parse s b (String.ofList (source.toList.take t.start) ++ ext) = .ok e ∧
      (tokenize source).take k <+:
        tokenize (String.ofList (source.toList.take t.start) ++ ext)) ∧
      ∀ line, ((tokenize source).take (k + 1)).map lexeme <+: (tokenize line).map lexeme →
        ∀ e, parse s b line ≠ .ok e := by
  have hle := le_of_parse_error h hspan
  obtain ⟨front, u, back, stage, problem, expected, hsource, hfront, hu, hf⟩ :=
    exists_of_parse_error hcap h hspan
  -- the token that is reported is the one that is not taken
  have hstart : t.start = u.start := by
    rw [hf, span?_faultAt] at hspan
    exact Int.ofNat.inj (congrArg Span.start (Option.some.inj hspan).symm)
  have hk : k = front.length := by
    have hu' : (tokenize source)[front.length]? = some u := by
      rw [hsource, List.getElem?_append_right (Nat.le_refl _), Nat.sub_self]
      rfl
    exact index_of_start ht hu' hstart
  have htu : t = u := by
    rw [hk, hsource, List.getElem?_append_right (Nat.le_refl _), Nat.sub_self] at ht
    exact (Option.some.inj ht).symm
  subst htu
  have hbefore : (tokenize source).take k = front := by
    rw [hk, hsource, List.take_left]
  have hupto : (tokenize source).take (k + 1) = front ++ [t] := by
    rw [hk, hsource, List.take_length_add_append]
    rfl
  rw [hbefore, hupto]
  have hstage : stage ≠ .finished :=
    ne_finished_of_take (hsource ▸ regular_tokenize source) hfront
  exact ⟨exists_completion hcap hle hsource hfront hstage,
    fun line hline e => parse_ne_ok_of_lexemes hcap hle hfront hu hline e⟩

/-- Behind `min` no line goes on with a star, although a line may begin with `1 min`. -/
theorem parse_reports_first_star :
    (∃ ext e, parse .default .empty (String.ofList ("1 min *".toList.take 6) ++ ext) = .ok e ∧
      (tokenize "1 min *").take 4 <+:
        tokenize (String.ofList ("1 min *".toList.take 6) ++ ext)) ∧
      ∀ e, parse .default .empty "1 min * 2" ≠ .ok e := by
  have hparse : parse .default .empty "1 min *" =
      .error (.malformed .termMissing ⟨6, 7⟩ termStart (some "OPERATOR(*)")) := by
    decide +kernel
  have ht : (tokenize "1 min *")[4]? = some ⟨.operator, "*", 6, 7⟩ := by decide +kernel
  have hline : ((tokenize "1 min *").take 5).map lexeme <+: (tokenize "1 min * 2").map lexeme := by
    decide +kernel
  obtain ⟨hcompleted, hstuck⟩ := parse_reports_first (by decide) hparse ht rfl
  exact ⟨hcompleted, hstuck "1 min * 2" hline⟩

end VectorCalc.Expr
