import VectorCalc.Proofs.Expr.Recognition
import VectorCalc.Proofs.Token.Spelling

/-!
# Trees of lines

Not every tree is the tree of a line. Chains group to the left, so no binary operator occurs on the
right of another one; a vector has two items at least, since one number alone is an integer; names are
spelled as names and have to be bound; and an assignment, which stands at the top only, assigns an
integer or a name. Such trees are normal, and the parser gives no other ones.
-/

namespace VectorCalc

open Token

/-- The text is spelled as a name: a letter, then letters, digits and underscores, and it is none of
the words that are operators. -/
def Token.IsName (x : String) : Prop := Spells .identifier x.toList

namespace Expr

/-! ## Normal trees -/

/-- A binary operator occurs in the tree. -/
def hasBinary : Expr → Bool
  | .binary _ _ _ => true
  | .unary _ operand => operand.hasBinary
  | .assign _ value => value.hasBinary
  | .literal _ | .ref _ | .foreign _ => false

/-- Normal trees without an assignment. -/
inductive NormalChain (bound : String → Bool) : Expr → Prop where
  | int (n : Int64) : NormalChain bound (.literal (.value (.int n)))
  | vector {v : Items} (h : 2 ≤ v.length) : NormalChain bound (.literal (.value (.vector v)))
  | ref {x : String} (hx : IsName x) (hb : bound x = true) : NormalChain bound (.ref x)
  | unary {symbol : String} {operand : Expr} (hop : (UnaryOp.ofSymbol? symbol).isSome = true)
    (h : NormalChain bound operand) : NormalChain bound (.unary symbol operand)
  | binary {symbol : String} {left right : Expr} (hop : (BinaryOp.ofSymbol? symbol).isSome = true)
    (hl : NormalChain bound left) (hr : NormalChain bound right) (hright : right.hasBinary = false) :
    NormalChain bound (.binary symbol left right)

/-- The trees of lines: an integer or a bound name is assigned to a name, or there is no assignment. -/
inductive Normal (bound : String → Bool) : Expr → Prop where
  | int {x : String} (hx : IsName x) (n : Int64) :
    Normal bound (.assign x (.literal (.value (.int n))))
  | ref {x y : String} (hx : IsName x) (hy : IsName y) (hb : bound y = true) :
    Normal bound (.assign x (.ref y))
  | chain {e : Expr} (h : NormalChain bound e) : Normal bound e

/-! ## What the grammar gives -/

/-- The identifiers among the tokens are spelled as names. -/
def Grammar.Named (ts : List Token) : Prop := ∀ t ∈ ts, t.kind = .identifier → IsName t.text

/-- A token of a line is spelled as its kind demands. -/
theorem Grammar.named_tokenize (source : String) : Grammar.Named (tokenize source) := by
  intro t ht hkind
  obtain ⟨ps, htokens, hreading⟩ := exists_reading source
  have hmem : lexeme t ∈ ps ++ [Lexeme.final] := htokens ▸ List.mem_map_of_mem ht
  rcases List.mem_append.1 hmem with hps | hfinal
  · have hspelled : Spells t.kind t.text.toList := hreading.spelled _ hps
    rw [hkind] at hspelled
    exact hspelled
  · have heof : t.kind = .eof := congrArg Lexeme.kind (List.mem_singleton.1 hfinal)
    rw [heof] at hkind
    cases hkind

namespace Grammar

variable {bound : String → Bool} {ts rest : List Token} {e : Expr}

theorem Literal.normal {ns : List Int64} {v : Value} (h : Literal ns v) :
    NormalChain bound (.literal (.value v)) := by
  cases h with
  | number n => exact .int n
  | several m n ns => exact .vector (by simp [Items.length])

/-- The tree of a term is normal, and no binary operator occurs in it. -/
theorem Term.normal (hts : Named ts) (h : Term bound ts e rest) :
    NormalChain bound e ∧ e.hasBinary = false := by
  induction h with
  | vector _ _ _ hv => exact ⟨hv.normal, rfl⟩
  | name ht hb => exact ⟨.ref (hts _ List.mem_cons_self ht) hb, rfl⟩
  | unary ht hgap _ ih =>
    obtain ⟨hnormal, hno⟩ := ih fun t hmem =>
      hts t (List.mem_cons_of_mem _ (hgap.suffix.mem hmem))
    exact ⟨.unary (Parse.isUnary_iff.1 ht).2 hnormal, hno⟩

theorem Chain.normal (hts : Named ts) (h : Chain bound ts e rest) : NormalChain bound e := by
  induction h with
  | term h => exact (h.normal hts).1
  | @binary t ts us vs ws rest left right hleft hgap ht hgap' hright ih =>
    -- the term on the right is read from tokens of the same line
    have hsuffix : ws <:+ ts :=
      hgap'.suffix.trans ((List.suffix_cons t vs).trans (hgap.suffix.trans hleft.suffix))
    obtain ⟨hnormal, hno⟩ := hright.normal fun t hmem => hts t (hsuffix.mem hmem)
    exact .binary (Parse.isBinary_iff.1 ht).2 (ih hts) hnormal hno
  | unary _ _ ht ih => exact .unary (Parse.isUnary_iff.1 ht).2 (ih hts)

theorem Line.normal (hts : Named ts) (h : Line bound ts e) : Normal bound e := by
  cases h with
  | chain hgap he => exact .chain (he.normal fun t hmem => hts t (hgap.suffix.mem hmem))
  | @assign x a _ us vs ws rest r hgap hx hgap' ha hgap'' hr hend =>
    have hname : IsName x.text := hts x (hgap.suffix.mem List.mem_cons_self) hx
    have hws : ws <:+ ts :=
      hgap''.suffix.trans ((List.suffix_cons a vs).trans
        (hgap'.suffix.trans ((List.suffix_cons x us).trans hgap.suffix)))
    cases hr with
    | number => exact .int hname _
    | name ht hb => exact .ref hname (hts _ (hws.mem List.mem_cons_self) ht) hb

end Grammar

/-- The parser gives normal trees only, whatever the capacity of its cursor. -/
theorem normal_of_parse {s : Settings} {b : Bindings} {source : String} {e : Expr}
    (h : parse s b source = .ok e) : Normal b.contains e :=
  (line_of_parse h).normal (Grammar.named_tokenize source)

end Expr

end VectorCalc
