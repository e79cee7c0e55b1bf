import VectorCalc.Machine.Evaluate
import VectorCalc.Text.Blank
import VectorCalc.Text.Lines

/-!
# The shell

The shell evaluates lines one after the other on one machine. After each line, and before the first,
it writes the prompt; a line is answered by its value or by the message of its fault, and a blank
line not at all. Only a fault that is not reported stops it.
-/

namespace VectorCalc.Shell

/-! ## One line -/

/-- The answer to a line. -/
inductive Report where
  | silent
  | value (v : Value)
  | failed (f : Fault)
deriving DecidableEq

namespace Report

/-- An answer as it is written. -/
def text : Report → String
  | .silent => ""
  | .value v => v.text ++ "\n"
  | .failed f => "error: " ++ f.message ++ "\n"

/-- How many failures an answer counts for. -/
def failures : Report → Nat
  | .failed _ => 1
  | _ => 0

end Report

/-- A line without the line ends at its end. -/
def chomp (raw : String) : String :=
  String.ofList (raw.toList.reverse.dropWhile fun c => c = '\r' || c = '\n').reverse

/-- The answer to a line, or the fault that stops the shell, and the machine after the line. -/
def answer (s : Settings) (raw : String) (m : Machine) : Except Fault Report × Machine :=
  let line := chomp raw
  if Text.isBlankText line then (.ok .silent, m)
  else
    match m.evaluateLine s line with
    | (.ok v, m) => (.ok (.value v), m)
    | (.error f, m) =>
      match f.category? with
      | some category => (.ok (.failed f), m.note (.lineFailed line category))
      | none => (.error f, m)

/-! ## Many lines -/

/-- Where lines come from: the lines that can be read, and the fault that comes after them. -/
structure Feed where
  lines : List String
  broken : Option Fault
deriving DecidableEq

/-- Lines that all can be read. -/
def Feed.ofLines (lines : List String) : Feed := ⟨lines, none⟩

/-- The lines of a text that arrives as bytes. -/
def Feed.ofBytes (bytes : List UInt8) : Feed :=
  match Text.Utf8.decode bytes with
  | (text, none) => ⟨Text.lines text, none⟩
  | (text, some f) => ⟨Text.completeLines text, some (.undecodable f)⟩

/-- What the shell has done: what it wrote, how many lines failed, the machine at the end, and the
fault that stopped it. -/
structure Transcript where
  out : String
  failures : Nat
  machine : Machine
  escaped : Option Fault

/-- Answer lines, each answer followed by the prompt, until a fault escapes. -/
def answerAll (s : Settings) (prompt : String) (broken : Option Fault) :
    List String → Machine → Transcript
  | [], m => ⟨"", 0, m, broken⟩
  | raw :: rest, m =>
    match answer s raw m with
    | (.error f, m) => ⟨"", 0, m, some f⟩
    | (.ok report, m) =>
      let t := answerAll s prompt broken rest m
      { t with
        out := report.text ++ prompt ++ t.out
        failures := report.failures + t.failures }

/-- Run the shell: the prompt, the answers, and a line end after a last prompt that is not empty. -/
def run (s : Settings) (prompt : String) (feed : Feed) (m : Machine) : Transcript :=
  let t := answerAll s prompt feed.broken feed.lines m
  { t with out := prompt ++ t.out ++ if t.escaped.isNone && prompt ≠ "" then "\n" else "" }

end VectorCalc.Shell
