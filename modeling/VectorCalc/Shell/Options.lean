import VectorCalc.Text.DecimalDigit
import VectorCalc.Text.Quoted

/-!
# Options of the command line

The arguments of a command line are first told apart one by one: switches, plain words, and the
separator `--` behind which every argument is a plain word. A long switch may be cut short as long as
it stays unique, and a value may follow `=` or, with a short switch, directly. Then the arguments are
taken from the left. Asking for help stops there; words that nothing can take are reported at the
end. The separator is never a value: a switch to which it is attached is given nothing.
-/

namespace VectorCalc.Shell

/-! ## What can be asked for -/

/-- From which level on log records are written. -/
inductive Level where
  | debug
  | info
  | warning
  | error
  | critical
deriving DecidableEq

namespace Level

/-- All levels, the lowest first. -/
def all : List Level := [.debug, .info, .warning, .error, .critical]

/-- The name of a level. -/
def name : Level → String
  | .debug => "DEBUG"
  | .info => "INFO"
  | .warning => "WARNING"
  | .error => "ERROR"
  | .critical => "CRITICAL"

/-- The level of a name. -/
def ofName? (s : String) : Option Level := all.find? fun level => level.name = s

end Level

/-- What a switch is given: a text, or nothing if the separator is attached to it. -/
abbrev Given := Option String

/-- What a command line asks for. -/
structure Options where
  /-- What is given as lines. -/
  commands : List Given
  file : Option String
  /-- What is given as the prompt, if anything is said about it. -/
  prompt : Option Given
  /-- The level, or nothing if nothing is given for it. -/
  level : Option Level
deriving DecidableEq

/-- What an empty command line asks for. -/
def Options.default : Options := ⟨[], none, none, some .warning⟩

/-! ## Switches -/

/-- The switches. -/
inductive Switch where
  | help
  | command
  | prompt
  | logLevel
deriving DecidableEq

namespace Switch

/-- How switches are written. -/
def spellings : List (String × Switch) :=
  [("-h", .help), ("--help", .help), ("-c", .command), ("--command", .command),
   ("--prompt", .prompt), ("--log-level", .logLevel)]

/-- The switch that is written so. -/
def ofSpelling? (s : String) : Option Switch := spellings.lookup s

/-- A switch as messages name it: all its spellings. -/
def label (sw : Switch) : String :=
  "/".intercalate ((spellings.filter fun e => e.2 = sw).map Prod.fst)

end Switch

/-- Why a command line is refused. -/
inductive UsageFault where
  | ambiguous (argument : String) (candidates : List String)
  | valueMissing (sw : Switch)
  | valueIgnored (sw : Switch) (value : String)
  | noSuchLevel (value : String)
  | unrecognized (arguments : List String)
deriving DecidableEq

/-- The words for a refusal. -/
def UsageFault.text : UsageFault → String
  | .ambiguous argument candidates =>
    "ambiguous option: " ++ argument ++ " could match " ++ ", ".intercalate candidates
  | .valueMissing sw => "argument " ++ sw.label ++ ": expected one argument"
  | .valueIgnored sw value =>
    "argument " ++ sw.label ++ ": ignored explicit argument " ++ Text.quoted value
  | .noSuchLevel value =>
    "argument " ++ Switch.logLevel.label ++ ": invalid choice: " ++ Text.quoted value ++
      " (choose from " ++ ", ".intercalate (Level.all.map fun level => Text.quoted level.name) ++ ")"
  | .unrecognized arguments => "unrecognized arguments: " ++ " ".intercalate arguments

/-! ## Telling arguments apart -/

/-- A value that stands in the argument of its switch. -/
structure Attached where
  /-- The switch is written with two dashes. -/
  long : Bool
  value : List Char
deriving DecidableEq

/-- What an attached value gives to its switch. -/
def Attached.given (a : Attached) : Given :=
  if a.value = ['-', '-'] then none else some (String.ofList a.value)

/-- The switch is written with two dashes. -/
def isLong (name : List Char) : Bool := ['-', '-'].isPrefixOf name

/-- How an argument is understood. -/
inductive Word where
  | plain (text : String)
  | separator
  | switch (sw : Switch) (attached : Option Attached)
  | unknown (text : String)
deriving DecidableEq

/-- Digits, and nothing else, but at least `least` of them. -/
def isDigits (least : Nat) (cs : List Char) : Bool :=
  least ≤ cs.length && cs.all fun c => (Text.decimalDigit? c).isSome

/-- A negative number in decimal, with or without a point; a line feed may follow it. -/
def isNegativeNumber (cs : List Char) : Bool :=
  let cs := if cs.getLast? = some '\n' then cs.dropLast else cs
  match cs with
  | '-' :: digits =>
    match digits.dropWhile fun c => c ≠ '.' with
    | [] => isDigits 1 digits
    | _ :: fraction => isDigits 0 (digits.takeWhile fun c => c ≠ '.') && isDigits 1 fraction
  | _ => false

/-- The part before the first `=`, and the part behind it if there is one. -/
def splitEquals (cs : List Char) : List Char × Option (List Char) :=
  match cs.dropWhile fun c => c ≠ '=' with
  | [] => (cs, none)
  | _ :: value => (cs.takeWhile fun c => c ≠ '=', some value)

/-- The switches that an argument may mean although it is none of their spellings: a long one cut
short, or a short one with its value behind it. -/
def candidates (cs : List Char) : List (String × Word) :=
  match cs with
  | '-' :: '-' :: _ =>
    let (name, value) := splitEquals cs
    (Switch.spellings.filter fun e => name.isPrefixOf e.1.toList).map fun e =>
      (e.1, .switch e.2 (value.map (Attached.mk true)))
  | '-' :: c :: value =>
    match Switch.ofSpelling? (String.ofList ['-', c]) with
    | some sw => [(String.ofList ['-', c], .switch sw (some ⟨false, value⟩))]
    | none => []
  | _ => []

/-- An argument in front of the separator. -/
def Word.ofArgument (argument : String) : Except UsageFault Word :=
  let cs := argument.toList
  if cs.head? ≠ some '-' then .ok (.plain argument)
  else
    match Switch.ofSpelling? argument, splitEquals cs with
    | some sw, _ => .ok (.switch sw none)
    | none, (name, value) =>
      match Switch.ofSpelling? (String.ofList name), value with
      | some sw, some value => .ok (.switch sw (some ⟨isLong name, value⟩))
      | _, _ =>
        match candidates cs with
        | [(_, word)] => .ok word
        | [] =>
          if cs.length = 1 ∨ isNegativeNumber cs ∨ ' ' ∈ cs then .ok (.plain argument)
          else .ok (.unknown argument)
        | several => .error (.ambiguous argument (several.map Prod.fst))

/-- All arguments. -/
def Word.ofArguments : List String → Except UsageFault (List Word)
  | [] => .ok []
  | a :: rest =>
    if a = "--" then .ok (.separator :: rest.map .plain)
    else do return (← Word.ofArgument a) :: (← Word.ofArguments rest)

/-! ## Taking arguments -/

/-- Why the arguments are not followed. -/
inductive Stop where
  | help
  | refused (f : UsageFault)
deriving DecidableEq

/-- What has been taken so far. -/
structure Taken where
  options : Options
  /-- The place of the file has been passed, with or without a file. -/
  filePassed : Bool
  /-- What nothing could take, the last one first. -/
  extras : List String

/-- Give a switch its value. -/
def Options.take (o : Options) (given : Given) : Switch → Except Stop Options
  | .help => .error .help
  | .command => .ok { o with commands := o.commands ++ [given] }
  | .prompt => .ok { o with prompt := some given }
  | .logLevel =>
    match given with
    | none => .ok { o with level := none }
    | some name =>
      match Level.ofName? name with
      | some level => .ok { o with level := some level }
      | none => .error (.refused (.noSuchLevel name))

/-- Why the arguments end at `-h` with characters attached to it. They are read as further short
switches, and all of them are looked at before help is given: what is no switch is refused, and a
switch that takes a value must have one. -/
def stopAtBundle (plainFollows : Bool) : List Char → Stop
  | ['h'] => .help
  | 'h' :: more => stopAtBundle plainFollows more
  | ['c'] => if plainFollows then .help else .refused (.valueMissing .command)
  | 'c' :: _ => .help
  | value => .refused (.valueIgnored .help (String.ofList value))

/-- Why the arguments end at a switch that asks for help. -/
def stopAtHelp (plainFollows : Bool) : Option Attached → Stop
  | none => .help
  | some ⟨true, value⟩ => .refused (.valueIgnored .help (String.ofList value))
  | some ⟨false, value⟩ => stopAtBundle plainFollows value

/-- The word can be the value of a switch. -/
def Word.isPlain : Word → Bool
  | .plain _ => true
  | _ => false

/-- A word that no switch takes: the file, if its place has not been passed. -/
def Taken.word (t : Taken) (text : String) : Taken :=
  if t.filePassed then { t with extras := text :: t.extras }
  else { t with options := { t.options with file := some text }, filePassed := true }

/-- Take the arguments from the left. The separator goes with the file if it stands beside it, and
passes its place in any case. -/
def Taken.all : List Word → Taken → Except Stop Taken
  | [], t => .ok t
  | .switch .help attached :: rest, _ =>
    .error (stopAtHelp (rest.head?.any Word.isPlain) attached)
  | .switch sw (some attached) :: rest, t => do
    let options ← t.options.take attached.given sw
    Taken.all rest { t with options }
  | .switch sw none :: .plain value :: rest, t => do
    let options ← t.options.take (some value) sw
    Taken.all rest { t with options }
  | .switch sw none :: _, _ => .error (.refused (.valueMissing sw))
  | .unknown text :: rest, t => Taken.all rest { t with extras := text :: t.extras }
  | .plain text :: .separator :: rest, t =>
    if t.filePassed then Taken.all rest { t with extras := "--" :: text :: t.extras }
    else Taken.all rest (t.word text)
  | .plain text :: rest, t => Taken.all rest (t.word text)
  | .separator :: .plain text :: rest, t =>
    if t.filePassed then Taken.all rest { t with extras := text :: "--" :: t.extras }
    else Taken.all rest (t.word text)
  | .separator :: rest, t =>
    if t.filePassed then Taken.all rest { t with extras := "--" :: t.extras }
    else Taken.all rest { t with filePassed := true }

/-- What the arguments of a command line ask for. -/
def Options.ofArguments (arguments : List String) : Except Stop Options :=
  match Word.ofArguments arguments with
  | .error f => .error (.refused f)
  | .ok words =>
    match Taken.all words ⟨.default, false, []⟩ with
    | .error stop => .error stop
    | .ok t =>
      if t.extras.isEmpty then .ok t.options
      else .error (.refused (.unrecognized t.extras.reverse))

/-! ## Texts -/

/-- The name of the program. -/
def programName : String := "apl-jax"

/-- The levels as the usage shows them. -/
def levelChoices : String := "\x7b" ++ ",".intercalate (Level.all.map Level.name) ++ "\x7d"

/-- How the program is called. -/
def usage : String :=
  "usage: " ++ programName ++ " [-h] [-c EXPR] [--prompt PROMPT]\n" ++
  "               [--log-level " ++ levelChoices ++ "]\n" ++
  "               [file]\n"

/-- The answer to a request for help. -/
def helpText : String :=
  usage ++ "\n" ++
  "Evaluate integer/vector array expressions line by line.\n\n" ++
  "positional arguments:\n" ++
  "  file                  read lines from this file instead of stdin\n\n" ++
  "options:\n" ++
  "  -h, --help            show this help message and exit\n" ++
  "  -c EXPR, --command EXPR\n" ++
  "                        evaluate EXPR and exit (repeatable; lines share one\n" ++
  "                        environment)\n" ++
  "  --prompt PROMPT       prompt printed before each line (default: a tab on a\n" ++
  "                        terminal)\n" ++
  "  --log-level " ++ levelChoices ++ "\n" ++
  "                        logging level for apl_jax loggers\n"

/-- The answer to a command line that is refused. -/
def refusal (f : UsageFault) : String :=
  usage ++ programName ++ ": error: " ++ f.text ++ "\n"

end VectorCalc.Shell
