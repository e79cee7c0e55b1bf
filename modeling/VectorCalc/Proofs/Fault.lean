import Mathlib
import VectorCalc.Fault
import VectorCalc.Proofs.Token.Spelling

/-!
# What messages tell

A message names what its cause carries: the symbol of an operator, the kinds and the lengths of its
operands from left to right, the span of a token, what was expected there and what was found. `carried`
lists these pieces for each cause, and they stand in the message in that order, with words between them
(`Fault.message_mentions`). Causes that carry nothing are told apart by their words.

Symbols and names are shown in quotes, where some characters are escaped. No name of a line has such a
character.
-/

namespace VectorCalc

/-! ## Pieces of a text -/

/-- The pieces stand in the text one behind the other, with any words between them. -/
inductive Mentions : List String → String → Prop where
  | nothing (text : String) : Mentions [] text
  | piece (words first : String) {pieces : List String} {rest : String} (h : Mentions pieces rest) :
    Mentions (first :: pieces) (words ++ first ++ rest)

namespace Mentions

variable {ps qs : List String} {t u : String}

theorem one (words p : String) : Mentions [p] (words ++ p) := by
  have h := piece words p (nothing "")
  rwa [String.append_empty] at h

theorem self (p : String) : Mentions [p] p := by
  have h := one "" p
  rwa [String.empty_append] at h

theorem after (words : String) (h : Mentions ps t) : Mentions ps (words ++ t) := by
  cases h with
  | nothing => exact .nothing _
  | piece before first h =>
    rw [← String.append_assoc, ← String.append_assoc]
    exact .piece (words ++ before) first h

theorem append (h : Mentions ps t) (h' : Mentions qs u) : Mentions (ps ++ qs) (t ++ u) := by
  induction h with
  | nothing text => exact h'.after text
  | piece words first _ ih =>
    rw [String.append_assoc]
    exact .piece words first ih

/-- A further piece, behind some words. -/
theorem more (h : Mentions ps t) (words p : String) : Mentions (ps ++ [p]) (t ++ words ++ p) := by
  rw [String.append_assoc]
  exact h.append (one words p)

/-- Words at the end. -/
theorem ends (h : Mentions ps t) (words : String) : Mentions ps (t ++ words) := by
  have h' := h.append (.nothing words)
  rwa [List.append_nil] at h'

/-- A list names its members in order. -/
theorem intercalate (separator : String) (ps : List String) :
    Mentions ps (separator.intercalate ps) := by
  induction ps with
  | nil => exact .nothing _
  | cons p ps ih =>
    cases ps with
    | nil =>
      rw [String.intercalate_singleton]
      exact self p
    | cons q qs =>
      rw [String.intercalate_cons_cons]
      exact ((self p).ends separator).append ih

end Mentions

/-! ## What causes carry -/

/-- Where the span begins and where it ends. -/
def Span.carried (s : Span) : List String := [toString s.start, toString s.stop]

/-- What a problem carries; how many tokens are to be read again is for the log alone. -/
def Problem.carried : Problem → List String
  | .unknownOperator symbol => [Text.quoted symbol]
  | .retractionExhausted capacity _ => [toString capacity]
  | .stated text => [text]
  | _ => []

/-- What an unsupported operation carries, of its operands the left one first. -/
def Unsupported.carried : Unsupported → List String
  | .unknownUnary symbol | .unknownBinary symbol => [Text.quoted symbol]
  | .lengthMismatch symbol left right => [Text.quoted symbol, toString left, toString right]
  | .mixedOperands symbol left right => [Text.quoted symbol, left.text, right.text]
  | .operandKind symbol kind => [Text.quoted symbol, kind]
  | .doesNotFit value bits => [value.raw, toString bits]
  | .rank n => [toString n]
  | .stated text => [text]

/-- What a misuse carries: where the datum was offered, and its type. -/
def Misuse.carried : Misuse → List String
  | .name offered => [offered.shown]
  | .valueAt place kind => [place, kind]
  | .item index kind => [toString index, kind]
  | .incomparable kind | .value kind | .node kind | .integer kind | .line kind | .prompt kind
  | .level kind => [kind]

/-- What data outside its domain carries; a long setting is cut. -/
def OutOfDomain.carried : OutOfDomain → List String
  | .integer n => [toString n]
  | .digits count => [toString Text.digitLimit, toString count]
  | .integerText text => [String.ofList ((Text.quoted text).toList.take shownSettingLimit)]
  | .capacity | .capacityTooLarge | .emptyVector | .path => []

/-- What bytes that are no text carry: a byte by itself is shown with its position, and several bytes
only with the positions of the first and the last one. -/
def Text.Utf8.Fault.carried (f : Text.Utf8.Fault) : List String :=
  if f.stop = f.start + 1 then
    [String.ofList (hex 2 f.byte.toNat), toString f.start, f.reason.text]
  else [toString f.start, toString (f.stop - 1), f.reason.text]

/-- What a fault carries, in the order in which its message names it. -/
def Fault.carried : Fault → List String
  | .illegalCharacter char span => Text.quoted char :: span.carried
  | .malformed problem span expected found =>
    problem.carried ++ span.carried ++ expected ++ found.toList
  | .undefined name => [name.shown]
  | .unsupported cause => cause.carried
  | .runtime text | .general text => [text]
  | .misuse cause => cause.carried
  | .outOfDomain cause => cause.carried
  | .missing name => (name.map Host.shown).toList
  | .undecodable cause => cause.carried

/-! ## What messages name -/

theorem Span.text_mentions (s : Span) : Mentions s.carried s.text :=
  ((Mentions.one _ _).more _ _).ends _

theorem Problem.text_mentions (p : Problem) : Mentions p.carried p.text := by
  cases p with
  | unknownOperator => exact .one _ _
  | retractionExhausted => exact (Mentions.one _ _).ends _
  | stated => exact .self _
  | _ => exact .nothing _

theorem Unsupported.text_mentions (cause : Unsupported) : Mentions cause.carried cause.text := by
  cases cause with
  | unknownUnary | unknownBinary => exact .one _ _
  | lengthMismatch => exact ((Mentions.one _ _).more _ _).more _ _
  | mixedOperands => exact (((Mentions.one _ _).more _ _).more _ _).ends _
  | operandKind => exact ((Mentions.one _ _).more _ _).ends _
  | doesNotFit => exact (Mentions.one _ _).more _ _
  | rank => exact (Mentions.one _ _).ends _
  | stated => exact .self _

theorem Misuse.text_mentions (cause : Misuse) : Mentions cause.carried cause.text := by
  cases cause with
  | name | value | node | integer => exact .one _ _
  | incomparable | line | prompt | level => exact (Mentions.one _ _).ends _
  | valueAt => exact (Mentions.self _).more _ _
  | item => exact (Mentions.one _ _).more _ _

theorem OutOfDomain.text_mentions (cause : OutOfDomain) : Mentions cause.carried cause.text := by
  cases cause with
  | integer => exact (Mentions.one _ _).ends _
  | digits => exact ((Mentions.one _ _).more _ _).ends _
  | integerText => exact .one _ _
  | _ => exact .nothing _

theorem Text.Utf8.Fault.message_mentions (f : Text.Utf8.Fault) : Mentions f.carried f.message := by
  unfold carried message
  by_cases h : f.stop = f.start + 1
  · rw [if_pos h, if_pos h]
    exact (((Mentions.one _ _).more _ _).after _).more _ _
  · rw [if_neg h, if_neg h]
    exact (((Mentions.one _ _).more _ _).after _).more _ _

/-- A message names what its cause carries: kinds and lengths in the order of the operands, then the
span, what was expected and what was found. -/
theorem Fault.message_mentions (f : Fault) : Mentions f.carried f.message := by
  cases f with
  | illegalCharacter char span => exact ((Mentions.one _ _).ends _).append span.text_mentions
  | malformed problem span expected found =>
    have hexpected : Mentions expected
        (if expected.isEmpty then "" else "; expected " ++ ", ".intercalate expected) := by
      cases expected with
      | nil => exact .nothing _
      | cons => exact (Mentions.intercalate _ _).after _
    refine (((problem.text_mentions.ends _).append span.text_mentions).append hexpected).append ?_
    cases found with
    | none => exact .nothing _
    | some => exact .one _ _
  | undefined => exact .one _ _
  | unsupported cause => exact cause.text_mentions
  | runtime | general => exact .self _
  | misuse cause => exact cause.text_mentions
  | outOfDomain cause => exact cause.text_mentions
  | missing name =>
    cases name with
    | none => exact .nothing _
    | some => exact .self _
  | undecodable cause => exact cause.message_mentions

/-! ## Causes that carry nothing -/

/-- Problems that carry nothing are told apart by their words. -/
theorem Problem.text_injective {p q : Problem} (hp : p.carried = []) (hq : q.carried = [])
    (h : p.text = q.text) : p = q := by
  cases p <;> cases hp <;> cases q <;> cases hq <;> first | rfl | exact absurd h (by decide)

theorem OutOfDomain.text_injective {p q : OutOfDomain} (hp : p.carried = []) (hq : q.carried = [])
    (h : p.text = q.text) : p = q := by
  cases p <;> cases hp <;> cases q <;> cases hq <;> first | rfl | exact absurd h (by decide)

theorem Text.Utf8.Reason.text_injective {r r' : Reason} (h : r.text = r'.text) : r = r' := by
  cases r <;> cases r' <;> first | rfl | exact absurd h (by decide)

/-! ## Mentions in quotes -/

/-- A text of visible characters without quotes and backslashes is quoted as it is. -/
theorem Text.quoted_of_plain {s : String}
    (h : ∀ c ∈ s.toList, isPrintable c = true ∧ c ≠ apostrophe ∧ c ≠ '\\') :
    quoted s = "'" ++ s ++ "'" := by
  have hquote : quoteFor s.toList = apostrophe := if_neg fun hq => (h _ hq.1).2.1 rfl
  have hescape : ∀ c ∈ s.toList, escape apostrophe c = [c] := by
    intro c hc
    obtain ⟨hprintable, hq, hb⟩ := h c hc
    have hcontrol : c ≠ '\n' ∧ c ≠ '\r' ∧ c ≠ '\t' := by
      refine ⟨?_, ?_, ?_⟩ <;> rintro rfl <;> cases hprintable
    rw [escape, if_neg (by simp [hq, hb]), if_neg hcontrol.1, if_neg hcontrol.2.1,
      if_neg hcontrol.2.2, if_pos hprintable]
  have hsame : s.toList.flatMap (escape apostrophe) = s.toList := by
    rw [List.flatMap_congr hescape]
    exact List.flatMap_singleton' _
  rw [← String.toList_inj, quoted, String.toList_ofList, hquote, hsame, String.toList_append,
    String.toList_append]
  rfl

/-- The characters of names are visible, and no quotes or backslashes. -/
theorem Token.plain_of_isNameChar {c : Char} (h : isNameChar c = true) :
    Text.isPrintable c = true ∧ c ≠ Text.apostrophe ∧ c ≠ '\\' := by
  have hcode : 48 ≤ c.toNat ∧ c.toNat ≤ 122 ∧ c.toNat ≠ 92 := by
    rcases isNameChar_iff.1 h with hc | hc | rfl
    · have hletter : 65 ≤ c.toNat ∧ c.toNat ≤ 90 ∨ 97 ≤ c.toNat ∧ c.toNat ≤ 122 := by
        simpa [Char.isAlpha, Char.isUpper, Char.isLower, UInt32.le_iff_toNat_le] using hc
      omega
    · have hdigit := Char.isDigit_iff_toNat.1 hc
      have hzero : '0'.toNat = 48 := rfl
      have hnine : '9'.toNat = 57 := rfl
      omega
    · decide
  refine ⟨?_, ?_, ?_⟩
  · have hlow : c.toNat < 0x7F := by omega
    have hhigh : 0x20 ≤ c.toNat := by omega
    rw [Text.isPrintable, if_pos hlow]
    exact decide_eq_true hhigh
  · rintro rfl
    exact absurd hcode (by decide)
  · rintro rfl
    exact absurd hcode (by decide)

/-- The message about an undefined name of a line shows the name as it is written there. -/
theorem Fault.message_undefined {name : String} (h : Token.Spells .identifier name.toList) :
    (Fault.undefined (.text name)).message = "Undefined variable '" ++ name ++ "'" := by
  have hplain : ∀ c ∈ name.toList, Token.isNameChar c = true := by
    generalize name.toList = cs at h
    cases h with
    | identifier hc hcs =>
      intro d hd
      rcases List.mem_cons.1 hd with rfl | hd
      · exact Token.isNameChar_iff.2 (.inl hc)
      · exact hcs d hd
  show "Undefined variable " ++ Text.quoted name = _
  rw [Text.quoted_of_plain fun c hc => Token.plain_of_isNameChar (hplain c hc),
    ← String.append_assoc, ← String.append_assoc]
  rfl

/-- Kinds stand in the order of the operands. -/
example : (Fault.unsupported (.mixedOperands "+" .vector .int)).message =
    "Operator '+' does not support vector and int operands" := by
  decide +kernel

end VectorCalc
