import VectorCalc.Shell.Command

/-!
# The program

Reads the surroundings, runs the command, and writes what it leaves behind. On a terminal lines are
answered as they are typed; everything else is read as a whole first.
-/

namespace VectorCalc.Program

open Shell

/-- The words for a failure to open a file. -/
def openFault : IO.Error → OpenFault
  | .noFileOrDirectory .. => .missing
  | .inappropriateType .. => .isFolder
  | e => .stated (toString e)

/-- Answer the lines of a terminal until it ends or a fault escapes. -/
partial def converse (s : Settings) (prompt : String) (level : Level) (m : Machine) :
    IO (Option Fault) := do
  IO.print prompt
  (← IO.getStdout).flush
  let raw ← (← IO.getStdin).getLine
  if raw.isEmpty then
    if prompt ≠ "" then IO.println ""
    return none
  let (outcome, next) := answer s raw { m with log := [] }
  IO.eprint (logText level next.records)
  match outcome with
  | .ok report =>
    IO.print report.text
    converse s prompt level next
  | .error f => return some f

/-- Write what a run leaves behind, and give its exit code. -/
def conclude (o : Outcome) : IO UInt32 := do
  IO.print o.out
  IO.eprint o.err
  if let some f := o.escaped then IO.eprintln f.message
  return UInt32.ofNat (o.code.getD 1)

/-- The files and the input of the program. Input is read only if lines are taken from it. -/
def surroundings (o : Options) : IO World := do
  let opened ← (o.file.mapM fun path => do
    try
      let bytes ← IO.FS.readBinFile path
      return Except.ok bytes.toList
    catch e => return Except.error (openFault e))
  let terminal ← (← IO.getStdin).isTty
  let reads := o.commands.isEmpty && o.file.isNone && !terminal
  let input ← if reads then (← IO.getStdin).readBinToEnd else pure .empty
  return ⟨fun _ => opened.getD (.error .missing), input.toList, terminal⟩

/-- Run the program with its arguments. -/
def run (arguments : List String) : IO UInt32 := do
  let names := [Settings.widthVariable, Settings.preparesVariable, Settings.capacityVariable]
  let values ← names.mapM fun name => return (name, ← IO.getEnv name)
  match Settings.ofVariables fun name => (values.lookup name).join with
  | .error f =>
    IO.eprintln f.message
    return 1
  | .ok s =>
    match Options.ofArguments arguments with
    | .error _ => conclude (runCommand s ⟨fun _ => .error .missing, [], false⟩ arguments)
    | .ok o =>
      let w ← surroundings o
      match w.terminal && o.commands.isEmpty && o.file.isNone, inputPrompt o true, o.level with
      | true, .ok prompt, some level =>
        match ← converse s prompt level .new with
        | none => return 0
        | some f =>
          IO.eprintln f.message
          return 1
      | _, _, _ => conclude (runCommand s w arguments)

end VectorCalc.Program

/-- The program. -/
def main (arguments : List String) : IO UInt32 := VectorCalc.Program.run arguments
