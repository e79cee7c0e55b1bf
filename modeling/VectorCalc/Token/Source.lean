import VectorCalc.Fault
import VectorCalc.Token

/-!
# Sources of tokens

What a parser needs of a reader of tokens: the next token, and steps back after which the same
tokens come again. A parser runs on any source, and leaves it where it stopped reading.
-/

namespace VectorCalc.Token

/-- A stream of tokens that can be rewound. -/
class Source (σ : Type) where
  /-- The next token. The stream never ends: it goes on with end tokens. -/
  next : σ → Token × σ
  /-- One step back, if it is granted. -/
  retract : σ → Except Fault σ
  /-- At most this many tokens come before the end token. -/
  ahead : σ → Nat

/-! ## Steps that a parser takes -/

/-- Reading from a source, which keeps its state when a fault arises. -/
abbrev Reader (σ : Type) := ExceptT Fault (StateM σ)

namespace Reader

variable {σ : Type} [Source σ]

/-- Read the next token. -/
def next : Reader σ Token := fun s =>
  let (token, s) := Source.next s
  (.ok token, s)

/-- Take one step back. -/
def retract : Reader σ Unit := fun s =>
  match Source.retract s with
  | .ok s => (.ok (), s)
  | .error f => (.error f, s)

/-- Read the next token, or the one after it if that is a space. -/
def nextWord : Reader σ Token := do
  let token ← next
  if token.kind = .space then next else return token

/-! ## What a reader does to its source -/

variable {α β : Type}

omit [Source σ] in
@[simp] theorem run_pure (a : α) (s : σ) : (pure a : Reader σ α) s = (.ok a, s) := rfl

omit [Source σ] in
@[simp] theorem run_lift (outcome : Except Fault α) (s : σ) :
    (liftM outcome : Reader σ α) s = (outcome, s) := rfl

omit [Source σ] in
/-- The second reader goes on where the first one has stopped, unless that has met a fault. -/
@[simp] theorem run_bind (m : Reader σ α) (k : α → Reader σ β) (s : σ) :
    (m >>= k) s =
      match m s with
      | (.ok a, s') => k a s'
      | (.error f, s') => (.error f, s') := by
  show StateT.bind m (ExceptT.bindCont k) s = _
  simp only [StateT.bind]
  rcases m s with ⟨f | a, s'⟩ <;> rfl

omit [Source σ] in
theorem run_bind_of_ok {m : Reader σ α} {s s' : σ} {a : α} (h : m s = (.ok a, s'))
    (k : α → Reader σ β) : (m >>= k) s = k a s' := by
  rw [run_bind, h]

omit [Source σ] in
theorem run_bind_of_error {m : Reader σ α} {s s' : σ} {f : Fault} (h : m s = (.error f, s'))
    (k : α → Reader σ β) : (m >>= k) s = (.error f, s') := by
  rw [run_bind, h]

omit [Source σ] in
@[simp] theorem run_ite (c : Prop) [Decidable c] (m m' : Reader σ α) (s : σ) :
    (if c then m else m') s = if c then m s else m' s := by
  split <;> rfl

@[simp] theorem run_next (s : σ) : Reader.next s = (.ok (Source.next s).1, (Source.next s).2) := rfl

/-- A step back that is refused leaves the source as it is. -/
theorem run_retract (s : σ) :
    Reader.retract s =
      match Source.retract s with
      | .ok s' => (.ok (), s')
      | .error f => (.error f, s) := rfl

theorem run_nextWord (s : σ) :
    Reader.nextWord s =
      if (Source.next s).1.kind = .space then Reader.next (Source.next s).2
      else (.ok (Source.next s).1, (Source.next s).2) := by
  simp only [nextWord, run_bind, run_next, run_ite, run_pure]

end Reader

end VectorCalc.Token
