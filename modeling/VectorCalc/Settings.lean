import VectorCalc.Arithmetic.Width
import VectorCalc.Fault
import VectorCalc.Text.Integer

/-!
# Settings

What is fixed before the first line: the width of arithmetic, whether operators are prepared before
they are first applied, and how many tokens a cursor keeps. They are read from variables of the
surroundings, of which only the exact text `1` switches anything off.
-/

namespace VectorCalc

/-- The settings of a calculator. -/
structure Settings where
  width : Width
  /-- An operator is prepared, and the log says so, when it is first applied. -/
  prepares : Bool
  /-- How many tokens a cursor keeps. -/
  capacity : Nat
  capacity_pos : 0 < capacity
deriving DecidableEq

namespace Settings

/-- The settings in surroundings that say nothing. -/
def default : Settings := ⟨.bits64, true, 10, by decide⟩

instance : Inhabited Settings := ⟨default⟩

/-- The variable that switches to 32 bits. -/
def widthVariable : String := "APL_JAX_DISABLE_X64"

/-- The variable that switches the preparing of operators off. -/
def preparesVariable : String := "APL_JAX_DISABLE_JITTED_KERNELS"

/-- The variable that says how many tokens a cursor keeps. -/
def capacityVariable : String := "APL_JAX_HISTORY_CAPACITY"

/-- The capacity that a text asks for. At least one token is always kept. -/
def readCapacity (text : String) : Except Fault { n : Nat // 0 < n } :=
  match Text.Integer.read text with
  | .ok n => .ok ⟨max 1 n.toNat, Nat.le_max_left ..⟩
  | .error (.tooLong digits) => .error (.outOfDomain (.digits digits))
  | .error .malformed => .error (.outOfDomain (.integerText text))

/-- The settings that the variables of the surroundings say. -/
def ofVariables (value? : String → Option String) : Except Fault Settings := do
  let width := if value? widthVariable = some "1" then .bits32 else .bits64
  let prepares := value? preparesVariable ≠ some "1"
  match value? capacityVariable with
  | none => return ⟨width, prepares, default.capacity, default.capacity_pos⟩
  | some text =>
    let ⟨capacity, h⟩ ← readCapacity text
    return ⟨width, prepares, capacity, h⟩

end Settings

end VectorCalc
