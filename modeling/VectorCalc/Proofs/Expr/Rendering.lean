import VectorCalc.Proofs.Expr.Normal
import VectorCalc.Proofs.Machine.Printed

/-!
# Normal trees are trees of lines

A normal tree is written as a line, word by word with single spaces between the words (`Expr.text`),
and the line is parsed as that tree.

A unary operator may stand in front of its operand or behind it. In front of it, it takes the term that
follows; so it is written behind an operand in which a binary operator occurs. A minus sign without a
space behind it would belong to a number, so an operator is always followed by a space.

The proof follows the tree. What is written behind a part of it (`Closes`) lets that part end: no
number follows, so a vector goes on no further.
-/

namespace VectorCalc

open Token

/-! ## Writing trees -/

/-- What is written without a space in it. -/
inductive Word where
  | number (n : Int64)
  | name (x : String)
  | operator (symbol : String)
  | assign
deriving DecidableEq

/-- A word as it is written. A minus sign stands right before its digits. -/
def Word.text : Word → String
  | .number n => Value.decimal n
  | .name x => x
  | .operator symbol => symbol
  | .assign => "="

/-- The words of a tree. A unary operator is written before an operand without a binary operator and
behind any other. -/
def Expr.words : Expr → List Word
  | .literal (.value v) => v.toList.map .number
  | .ref x => [.name x]
  | .assign x value => .name x :: .assign :: value.words
  | .unary symbol operand =>
    if operand.hasBinary then operand.words ++ [.operator symbol]
    else .operator symbol :: operand.words
  | .binary symbol left right => left.words ++ .operator symbol :: right.words
  | .literal (.foreign _) | .foreign _ => []

/-- A tree as a line, with single spaces between the words. -/
def Expr.text (e : Expr) : String := " ".intercalate (e.words.map Word.text)

/-! ## The lexemes of words -/

/-- The lexemes of a word. -/
def Word.lexemes : Word → List Lexeme
  | .number n => Lexeme.ofInt n.toInt
  | .name x => [⟨.identifier, x⟩]
  | .operator symbol => [⟨.operator, symbol⟩]
  | .assign => [⟨.assign, "="⟩]

theorem Word.join_lexemes (w : Word) : String.join (w.lexemes.map Lexeme.text) = w.text := by
  cases w with
  | number n => exact Lexeme.join_ofInt n.toInt
  | name x | operator x => simp [lexemes, text]
  | assign => rfl

theorem mem_operators_of_unary {symbol : String} (h : (UnaryOp.ofSymbol? symbol).isSome = true) :
    symbol ∈ operators := by
  obtain ⟨op, hop⟩ := Option.isSome_iff_exists.1 h
  rw [UnaryOp.ofSymbol?_eq_some_iff.1 hop]
  cases op <;> decide

theorem mem_operators_of_binary {symbol : String} (h : (BinaryOp.ofSymbol? symbol).isSome = true) :
    symbol ∈ operators := by
  obtain ⟨op, hop⟩ := Option.isSome_iff_exists.1 h
  rw [BinaryOp.ofSymbol?_eq_some_iff.1 hop]
  cases op <;> decide

theorem Word.isWord_name {x : String} (hx : IsName x) : Lexeme.IsWord (Word.name x).lexemes :=
  Lexeme.isWord_singleton hx nofun

theorem Word.isWord_operator {symbol : String} (h : symbol ∈ operators) :
    Lexeme.IsWord (Word.operator symbol).lexemes := by
  refine Lexeme.isWord_singleton ?_ nofun
  show Spells .operator symbol.toList
  exact .operator (by rwa [String.ofList_toList])

theorem Word.isWord_assign : Lexeme.IsWord Word.assign.lexemes :=
  Lexeme.isWord_singleton .assign nofun

theorem Word.isWord_number (n : Int64) : Lexeme.IsWord (Word.number n).lexemes :=
  Lexeme.isWord_ofInt n.toInt

namespace Expr

open Parse

variable {bound : String → Bool} {e : Expr}

/-- The words of a normal tree are words of a line. -/
theorem NormalChain.isWord (h : NormalChain bound e) :
    ∀ w ∈ e.words, Lexeme.IsWord w.lexemes := by
  induction h with
  | int n => exact List.forall_mem_singleton.2 (Word.isWord_number n)
  | vector =>
    intro w hw
    obtain ⟨n, -, rfl⟩ := List.mem_map.1 hw
    exact Word.isWord_number n
  | ref hx => exact List.forall_mem_singleton.2 (Word.isWord_name hx)
  | unary hop _ ih =>
    have hoperator := Word.isWord_operator (mem_operators_of_unary hop)
    rw [words]
    split
    · exact List.forall_mem_append.2 ⟨ih, List.forall_mem_singleton.2 hoperator⟩
    · exact List.forall_mem_cons.2 ⟨hoperator, ih⟩
  | binary hop _ _ _ ihl ihr =>
    have hoperator := Word.isWord_operator (mem_operators_of_binary hop)
    exact List.forall_mem_append.2 ⟨ihl, List.forall_mem_cons.2 ⟨hoperator, ihr⟩⟩

theorem isWord_assign {x : String} (hx : IsName x) (h : ∀ w ∈ e.words, Lexeme.IsWord w.lexemes) :
    ∀ w ∈ (Expr.assign x e).words, Lexeme.IsWord w.lexemes :=
  List.forall_mem_cons.2 ⟨Word.isWord_name hx, List.forall_mem_cons.2 ⟨Word.isWord_assign, h⟩⟩

theorem Normal.isWord (h : Normal bound e) : ∀ w ∈ e.words, Lexeme.IsWord w.lexemes := by
  cases h with
  | int hx n => exact isWord_assign hx (List.forall_mem_singleton.2 (Word.isWord_number n))
  | ref hx hy => exact isWord_assign hx (List.forall_mem_singleton.2 (Word.isWord_name hy))
  | chain h => exact h.isWord

theorem NormalChain.words_ne_nil (h : NormalChain bound e) : e.words ≠ [] := by
  induction h with
  | int n => exact List.cons_ne_nil _ _
  | @vector v => exact mt List.map_eq_nil_iff.1 v.ne_nil
  | ref => exact List.cons_ne_nil _ _
  | unary _ _ ih =>
    rw [words]
    split
    · exact List.append_ne_nil_of_left_ne_nil ih _
    · exact List.cons_ne_nil _ _
  | binary _ _ _ _ ihl => exact List.append_ne_nil_of_left_ne_nil ihl _

/-- The lexemes of a tree that is written as a line. -/
def lexemes (e : Expr) : List Lexeme := Lexeme.spaced (e.words.map Word.lexemes)

/-- A normal tree that is written as a line is cut into its lexemes. -/
theorem Normal.tokenize_text (h : Normal bound e) :
    (tokenize e.text).map lexeme = e.lexemes ++ [Lexeme.final] := by
  have hwords : ∀ w ∈ e.words.map Word.lexemes, Lexeme.IsWord w := List.forall_mem_map.2 h.isWord
  have hreading := Lexeme.reading_spaced hwords
  have htext : (fun w => String.join (List.map Lexeme.text w)) ∘ Word.lexemes = Word.text :=
    funext Word.join_lexemes
  rw [List.map_map, htext] at hreading
  exact lexemes_of_reading hreading

/-! ## The parts of a line -/

theorem lexemes_ref (x : String) : (Expr.ref x).lexemes = [⟨.identifier, x⟩] :=
  Lexeme.spaced_singleton _

/-- The numbers of a literal. -/
theorem lexemes_literal {v : Value} {n : Int64} {ns : List Int64} (h : v.toList = n :: ns) :
    (Expr.literal (.value v)).lexemes = Lexeme.ofInt n.toInt ++ Lexeme.spacedInts ns := by
  rw [lexemes, words, List.map_map, h]
  exact Lexeme.spaced_ofInt n ns

/-- An operator before its operand. -/
theorem lexemes_before {symbol : String} (he : e.words ≠ []) (hno : e.hasBinary = false) :
    (Expr.unary symbol e).lexemes = ⟨.operator, symbol⟩ :: Lexeme.gap :: e.lexemes := by
  rw [lexemes, words, if_neg (Bool.eq_false_iff.1 hno), List.map_cons]
  exact Lexeme.spaced_append (List.cons_ne_nil _ []) (mt List.map_eq_nil_iff.1 he)

/-- An operator behind its operand. -/
theorem lexemes_behind {symbol : String} (he : e.words ≠ []) (hbinary : e.hasBinary = true) :
    (Expr.unary symbol e).lexemes = e.lexemes ++ [Lexeme.gap, ⟨.operator, symbol⟩] := by
  rw [lexemes, words, if_pos hbinary, List.map_append]
  exact Lexeme.spaced_append (mt List.map_eq_nil_iff.1 he) (List.cons_ne_nil _ _)

/-- An operator between its operands. -/
theorem lexemes_binary {symbol : String} {left right : Expr} (hl : left.words ≠ [])
    (hr : right.words ≠ []) :
    (Expr.binary symbol left right).lexemes =
      left.lexemes ++ Lexeme.gap :: ⟨.operator, symbol⟩ :: Lexeme.gap :: right.lexemes := by
  have hright : Lexeme.spaced ((Word.operator symbol :: right.words).map Word.lexemes) =
      ⟨.operator, symbol⟩ :: Lexeme.gap :: right.lexemes :=
    Lexeme.spaced_append (List.cons_ne_nil _ []) (mt List.map_eq_nil_iff.1 hr)
  rw [lexemes, words, List.map_append, Lexeme.spaced_append (mt List.map_eq_nil_iff.1 hl)
    (mt List.map_eq_nil_iff.1 (List.cons_ne_nil _ _)), hright]
  rfl

/-- A name, the assignment sign and what is assigned. -/
theorem lexemes_assign {x : String} (he : e.words ≠ []) :
    (Expr.assign x e).lexemes =
      ⟨.identifier, x⟩ :: Lexeme.gap :: ⟨.assign, "="⟩ :: Lexeme.gap :: e.lexemes := by
  have hvalue : Lexeme.spaced ((Word.assign :: e.words).map Word.lexemes) =
      ⟨.assign, "="⟩ :: Lexeme.gap :: e.lexemes :=
    Lexeme.spaced_append (List.cons_ne_nil _ []) (mt List.map_eq_nil_iff.1 he)
  rw [lexemes, words, List.map_cons, List.map_cons, Lexeme.spaced_cons_cons, ← List.map_cons, hvalue]
  rfl

/-! ## Derivations -/

namespace Grammar

/-- What is written behind a part of a line: the end, or an operator that no number follows directly. -/
inductive Closes : List Lexeme → Prop where
  | final : Closes [.final]
  | operator (symbol : String) {q : Lexeme} (hq : q.kind ≠ .number) (rest : List Lexeme) :
    Closes (Lexeme.gap :: ⟨.operator, symbol⟩ :: q :: rest)

variable {ts : List Token} {rest : List Lexeme}

/-- Neither the end nor an operator with a space behind it is a number. -/
theorem Closes.signed?_eq_none (h : Closes rest) {us : List Token} (hus : us.map lexeme = rest) :
    signed? (skipSpace us) = none := by
  cases h with
  | final => exact signed?_of_final hus
  | operator symbol hq rest =>
    obtain ⟨g, us, rfl, hg, -, hus⟩ := token_of_lexemes hus
    obtain ⟨t, us, rfl, ht, -, hus⟩ := token_of_lexemes hus
    obtain ⟨u, us, rfl, hu, -, -⟩ := token_of_lexemes hus
    rw [← hu] at hq
    rw [skipSpace_of_space hg]
    simp [signed?, ht, hq]

/-- Behind an operator at the end of a part the line goes on with a space or ends. -/
theorem Closes.operator_append (symbol : String) (h : Closes rest) :
    Closes (Lexeme.gap :: ⟨.operator, symbol⟩ :: rest) := by
  cases h with
  | final => exact .operator symbol (by decide) []
  | operator => exact .operator symbol (by decide) _

/-- The tokens of a literal are a vector. -/
theorem term_of_numbers {n : Int64} {ns : List Int64} {v : Value} (hv : Literal (n :: ns) v)
    (h : ts.map lexeme = Lexeme.ofInt n.toInt ++ Lexeme.spacedInts ns ++ rest)
    (hrest : Closes rest) :
    ∃ us, Term bound ts (.literal (.value v)) us ∧ us.map lexeme = rest := by
  rw [List.append_assoc] at h
  obtain ⟨negative, token, us, hsigned, hn, hus⟩ := signed_of_lexemes h
  obtain ⟨vs, hitems, hvs⟩ := items_of_lexemes hus fun _ hus => hrest.signed?_eq_none hus
  exact ⟨vs, .vector hsigned hn hitems hv, hvs⟩

/-- The tokens of a normal tree without a binary operator are a term. -/
theorem term_of_lexemes (he : NormalChain bound e) (hno : e.hasBinary = false)
    (h : ts.map lexeme = e.lexemes ++ rest) (hrest : Closes rest) :
    ∃ us, Term bound ts e us ∧ us.map lexeme = rest := by
  induction he generalizing ts with
  | int n =>
    rw [lexemes_literal (v := .int n) rfl] at h
    exact term_of_numbers (.number n) h hrest
  | @vector v hlength =>
    obtain ⟨items, hne⟩ := v
    obtain ⟨n, ns, rfl⟩ := List.exists_cons_of_ne_nil hne
    rw [lexemes_literal (v := .vector ⟨n :: ns, hne⟩) rfl] at h
    -- a vector of one item would have been an integer
    cases ns with
    | nil => exact absurd hlength (Nat.not_succ_le_self 1)
    | cons m ns => exact term_of_numbers (.several n m ns) h hrest
  | ref hx hb =>
    rw [lexemes_ref] at h
    obtain ⟨t, us, rfl, hkind, rfl, hus⟩ := token_of_lexemes h
    exact ⟨us, .name hkind hb us, hus⟩
  | unary hop hnormal ih =>
    rw [lexemes_before hnormal.words_ne_nil hno] at h
    obtain ⟨t, us, rfl, hkind, rfl, hus⟩ := token_of_lexemes h
    obtain ⟨vs, hgap, hvs⟩ := gap_of_lexemes hus
    obtain ⟨ws, hterm, hws⟩ := ih hno hvs
    exact ⟨ws, .unary (isUnary_iff.2 ⟨hkind, hop⟩) hgap hterm, hws⟩
  | binary => cases hno

/-- A term is a chain. -/
theorem chain_of_term (he : NormalChain bound e) (hno : e.hasBinary = false)
    (h : ts.map lexeme = e.lexemes ++ rest) (hrest : Closes rest) :
    ∃ us, Chain bound ts e us ∧ us.map lexeme = rest := by
  obtain ⟨us, hterm, hus⟩ := term_of_lexemes he hno h hrest
  exact ⟨us, .term hterm, hus⟩

/-- The tokens of a normal tree without an assignment are a chain. -/
theorem chain_of_lexemes (he : NormalChain bound e) (h : ts.map lexeme = e.lexemes ++ rest)
    (hrest : Closes rest) : ∃ us, Chain bound ts e us ∧ us.map lexeme = rest := by
  induction he generalizing ts rest with
  | int n => exact chain_of_term (.int n) rfl h hrest
  | vector hlength => exact chain_of_term (.vector hlength) rfl h hrest
  | ref hx hb => exact chain_of_term (.ref hx hb) rfl h hrest
  | @unary symbol operand hop hnormal ih =>
    by_cases hbinary : operand.hasBinary = true
    · rw [lexemes_behind hnormal.words_ne_nil hbinary, List.append_assoc] at h
      obtain ⟨us, hchain, hlink⟩ := ih h (hrest.operator_append symbol)
      obtain ⟨vs, hgap, hvs⟩ := gap_of_lexemes hlink
      obtain ⟨t, after, rfl, hkind, rfl, hafter⟩ := token_of_lexemes hvs
      exact ⟨after, .unary hchain hgap (isUnary_iff.2 ⟨hkind, hop⟩), hafter⟩
    · exact chain_of_term (.unary hop hnormal) (Bool.eq_false_iff.2 hbinary) h hrest
  | @binary symbol left right hop hl hr hright ihl _ =>
    rw [lexemes_binary hl.words_ne_nil hr.words_ne_nil, List.append_assoc] at h
    obtain ⟨us, hchain, hlink⟩ := ihl h (.operator symbol (by decide) _)
    obtain ⟨vs, hgap, hvs⟩ := gap_of_lexemes hlink
    obtain ⟨t, ws, rfl, hkind, rfl, hws⟩ := token_of_lexemes hvs
    obtain ⟨zs, hgap', hzs⟩ := gap_of_lexemes hws
    obtain ⟨after, hoperand, hafter⟩ := term_of_lexemes hr hright hzs hrest
    exact ⟨after, .binary hchain hgap (isBinary_iff.2 ⟨hkind, hop⟩) hgap' hoperand, hafter⟩

/-- Behind the last lexeme of a line it ends. -/
theorem end_of_lexemes (h : ts.map lexeme = [.final]) : End ts := by
  obtain ⟨z, rfl, hz⟩ := eof_of_lexemes h
  exact ⟨z, hz, .none _⟩

/-- The tokens of a name, the assignment sign and what is assigned are an assignment. -/
theorem line_of_assigned {x : String} {r : Expr} (hr : r.words ≠ [])
    (h : ts.map lexeme = (Expr.assign x r).lexemes ++ [Lexeme.final])
    (hassigned : ∀ us : List Token, us.map lexeme = r.lexemes ++ [Lexeme.final] →
      ∃ vs, Assigned bound us r vs ∧ vs.map lexeme = [.final]) : Line bound ts (.assign x r) := by
  rw [lexemes_assign hr] at h
  obtain ⟨t, us, rfl, hname, rfl, hus⟩ := token_of_lexemes h
  obtain ⟨vs, hgap, hvs⟩ := gap_of_lexemes hus
  obtain ⟨a, ws, rfl, hassign, -, hws⟩ := token_of_lexemes hvs
  obtain ⟨zs, hgap', hzs⟩ := gap_of_lexemes hws
  obtain ⟨after, hr, hafter⟩ := hassigned zs hzs
  exact .assign (.none _) hname hgap hassign hgap' hr (end_of_lexemes hafter)

/-- The tokens of a normal tree are a line of which it is the tree. -/
theorem line_of_lexemes (he : Normal bound e) (h : ts.map lexeme = e.lexemes ++ [Lexeme.final]) :
    Line bound ts e := by
  cases he with
  | int hx n =>
    refine line_of_assigned (List.cons_ne_nil _ _) h fun us hus => ?_
    rw [lexemes_literal (v := .int n) rfl, List.append_assoc] at hus
    obtain ⟨negative, token, vs, hsigned, hn, hvs⟩ := signed_of_lexemes hus
    exact ⟨vs, .number hsigned hn, hvs⟩
  | ref hx hy hb =>
    refine line_of_assigned (List.cons_ne_nil _ _) h fun us hus => ?_
    rw [lexemes_ref] at hus
    obtain ⟨t, vs, rfl, hkind, rfl, hvs⟩ := token_of_lexemes hus
    exact ⟨vs, .name hkind hb vs, hvs⟩
  | chain he =>
    obtain ⟨us, hchain, hus⟩ := chain_of_lexemes he h .final
    exact .chain (.none _) hchain (end_of_lexemes hus)

end Grammar

/-! ## Lines -/

/-- The parser gives the normal trees and no others, and it gives each normal tree back for the line as
which the tree is written. A cursor of one token would not do, for it refuses to step back over the
minus sign of a difference. -/
theorem parse_image {s : Settings} (hcap : 2 ≤ s.capacity)
    (hlimit : (s.capacity : Int) ≤ Cursor.capacityLimit) (b : Bindings) (e : Expr) :
    ((∃ source, parse s b source = .ok e) ↔ Normal b.contains e) ∧
      (Normal b.contains e → parse s b e.text = .ok e) := by
  have hwritten : Normal b.contains e → parse s b e.text = .ok e := by
    intro he
    have hcursor := Cursor.ofText?_of_le e.text s.capacity_pos hlimit
    exact parse_of_line hcursor hcap (Grammar.line_of_lexemes he he.tokenize_text)
  exact ⟨⟨fun ⟨_, h⟩ => normal_of_parse h, fun he => ⟨e.text, hwritten he⟩⟩, hwritten⟩

/-- The sum of some products less minus three; and a sum on the right of another one, which no line
denotes. -/
theorem parse_image_sums :
    parse .default .empty "1 2 * 3 4 +/ - -3" =
        .ok (.binary "-" (.unary "+/" (.binary "*" (.literal (.value (.vector ⟨[1, 2], by decide⟩)))
          (.literal (.value (.vector ⟨[3, 4], by decide⟩))))) (.literal (.value (.int (-3))))) ∧
      ¬ ∃ source, parse .default .empty source =
        .ok (.binary "+" (.literal (.value (.int 1)))
          (.binary "+" (.literal (.value (.int 2))) (.literal (.value (.int 3))))) := by
  constructor
  · have htext : (Expr.binary "-" (.unary "+/" (.binary "*"
        (.literal (.value (.vector ⟨[1, 2], by decide⟩)))
        (.literal (.value (.vector ⟨[3, 4], by decide⟩))))) (.literal (.value (.int (-3))))).text =
          "1 2 * 3 4 +/ - -3" := by
      decide +kernel
    rw [← htext]
    refine (parse_image (s := .default) (by decide) (by decide) .empty _).2 (.chain ?_)
    have hleft : NormalChain Bindings.empty.contains
        (.binary "*" (.literal (.value (.vector ⟨[1, 2], by decide⟩)))
          (.literal (.value (.vector ⟨[3, 4], by decide⟩)))) :=
      .binary rfl (.vector (by decide)) (.vector (by decide)) rfl
    exact .binary rfl (.unary rfl hleft) (.int (-3)) rfl
  · intro hsource
    have hnormal := (parse_image (s := .default) (by decide) (by decide) .empty _).1.1 hsource
    cases hnormal with
    | chain h =>
      cases h with
      | binary _ _ _ hright => cases hright

end Expr

end VectorCalc
