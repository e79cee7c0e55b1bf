import VectorCalc.Shell
import VectorCalc.Shell.Folder
import VectorCalc.Shell.Options

/-!
# One run of the command

A run takes its lines from the arguments if they hold any, else from a file if one is named, else
from standard input. What it needs of its surroundings is collected in a `World`, so that a run is a
function of its arguments and its world. Where a switch was given nothing, a run goes on until it
needs the value.
-/

namespace VectorCalc.Shell

/-- The surroundings of a run. -/
structure World where
  /-- The bytes of the file that a path leads to. -/
  read : String → Except OpenFault (List UInt8)
  /-- All bytes of standard input. -/
  input : List UInt8
  /-- Standard input is a terminal. -/
  terminal : Bool

/-- What a run leaves behind. A run that a fault has stopped has no exit code. -/
structure Outcome where
  code : Option Nat
  out : String
  err : String
  escaped : Option Fault

/-- A run that a fault has stopped before it wrote anything. -/
def Outcome.stopped (f : Fault) : Outcome := ⟨none, "", "", some f⟩

/-! ## What switches are given -/

/-- What stands for the value of a switch that was given nothing. -/
def nothing : Host := Host.ofList []

/-- The lines that are given as arguments, up to a switch that was given nothing. -/
def Feed.ofCommands : List Given → Feed
  | [] => ⟨[], none⟩
  | none :: _ => ⟨[], some (.misuse (.line nothing.kind))⟩
  | some line :: rest =>
    let feed := ofCommands rest
    ⟨line :: feed.lines, feed.broken⟩

/-- Lines that are all given are all read. -/
theorem Feed.ofCommands_map_some (lines : List String) :
    Feed.ofCommands (lines.map some) = Feed.ofLines lines := by
  induction lines with
  | nil => rfl
  | cons l ls ih => simp only [List.map_cons, ofCommands, ih, ofLines]

/-- The prompt on a terminal, if nothing is said about it. -/
def terminalPrompt : String := "\t"

/-- The prompt for lines from a file. -/
def filePrompt (o : Options) : String := o.prompt.join.getD ""

/-- The prompt for lines from standard input. -/
def inputPrompt (o : Options) (terminal : Bool) : Except Fault String :=
  match o.prompt with
  | some (some prompt) => .ok prompt
  | some none => .error (.misuse (.prompt nothing.kind))
  | none => .ok (if terminal then terminalPrompt else "")

/-! ## Runs -/

/-- The log as it is written: all records if the lowest level is asked for, and else none, since no
record has a higher one. -/
def logText (level : Level) (records : List Record) : String :=
  if level = .debug then
    String.join (records.map fun r => Level.debug.name ++ " " ++ r.text ++ "\n")
  else ""

/-- What a run of the shell leaves behind. -/
def Transcript.outcome (t : Transcript) (level : Level) : Outcome where
  code := if t.escaped.isNone then some 0 else none
  out := t.out
  err := logText level t.machine.records
  escaped := t.escaped

/-- The message for a file that cannot be opened. -/
def cannotOpen (path : String) (f : OpenFault) : String :=
  programName ++ ": cannot open " ++ path ++ ": " ++ f.text ++ "\n"

/-- Follow the options, with log records from the given level on. -/
def Options.runAt (s : Settings) (w : World) (o : Options) (level : Level) : Outcome :=
  let shell (prompt : String) (feed : Feed) : Outcome :=
    (Shell.run s prompt feed .new).outcome level
  if o.commands ≠ [] then shell "" (.ofCommands o.commands)
  else
    match o.file with
    | some path =>
      if '\x00' ∈ path.toList then .stopped (.outOfDomain .path)
      else
        match w.read path with
        | .ok bytes => shell (filePrompt o) (.ofBytes bytes)
        | .error f => ⟨some 1, "", cannotOpen path f, none⟩
    | none =>
      match inputPrompt o w.terminal with
      | .ok prompt => shell prompt (.ofBytes w.input)
      | .error f => .stopped f

/-- Follow the options. -/
def Options.run (s : Settings) (w : World) (o : Options) : Outcome :=
  match o.level with
  | some level => o.runAt s w level
  | none => .stopped (.misuse (.level nothing.kind))

/-- Run the command with its arguments. -/
def runCommand (s : Settings) (w : World) (arguments : List String) : Outcome :=
  match Options.ofArguments arguments with
  | .ok o => o.run s w
  | .error .help => ⟨some 0, helpText, "", none⟩
  | .error (.refused f) => ⟨some 2, "", refusal f, none⟩

end VectorCalc.Shell
