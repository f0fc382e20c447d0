/-!
# Arguments

The tool takes options, then a command, then options again.  Options that are
not about one command may stand on either side of it, and behind it they weigh
more.  A long option has its value behind `=` or in the next argument, a short
one right behind its letter, with or without `=`, or in the next argument.
Short options without a value may be joined.  A value in an argument of its own
does not look like an option.

An option counts as soon as it is read.  So a request for the version is
answered whatever follows it, and is not reached behind a mistake.
-/

namespace StateResolution.CommandLine

/-- An option. -/
inductive Flag
  | config
  /-- How much a log says; the tool keeps none. -/
  | logLevel
  /-- More of a log; the tool keeps none. -/
  | verbose
  | version
  | help
  | fixture
  | event
deriving DecidableEq

namespace Flag

def name : Flag → String
  | config => "config"
  | logLevel => "log-level"
  | verbose => "verbose"
  | version => "version"
  | help => "help"
  | fixture => "fixture"
  | event => "event"

def letter : Flag → Char
  | config => 'c'
  | logLevel => 'l'
  | verbose => 'v'
  | version => 'V'
  | help => 'h'
  | fixture => 'f'
  | event => 'e'

def takesValue : Flag → Bool
  | verbose | version | help => false
  | config | logLevel | fixture | event => true

/-- Whether a value will do: no file has an empty name. -/
def admits (f : Flag) (value : String) : Bool :=
  match f with
  | config | fixture => value ≠ ""
  | _ => true

end Flag

/-- What the tool is asked to do. -/
inductive Command
  | resolve (fixture : String)
  | check (fixture event : String)
deriving DecidableEq

/-- A command and the settings file to do it under. -/
structure Arguments where
  /-- The settings file, when one is given. -/
  config : Option String
  command : Command
deriving DecidableEq

/-- What a call of the tool asks for. -/
inductive Request
  | version
  | help
  | run (arguments : Arguments)
deriving DecidableEq

/-- Why a call of the tool cannot be understood. -/
inductive UsageFault
  /-- An argument has no place. -/
  | unexpected (argument : String)
  /-- An option has no value. -/
  | valueMissing (flag : Flag)
  /-- An option has a value it cannot have. -/
  | badValue (flag : Flag) (value : String)
  /-- An option stands twice. -/
  | repeated (flag : Flag)
  /-- An option that a command needs is missing. -/
  | flagMissing (flag : Flag)
  /-- No command is given. -/
  | commandMissing
deriving DecidableEq

def UsageFault.message : UsageFault → String
  | unexpected argument => s!"unexpected argument '{argument}'"
  | valueMissing flag => s!"--{flag.name} needs a value"
  | badValue flag value => s!"--{flag.name} cannot be '{value}'"
  | repeated flag => s!"--{flag.name} stands twice"
  | flagMissing flag => s!"--{flag.name} is missing"
  | commandMissing => "no command is given"

/-! ## Words -/

/-- An argument by its shape. -/
inductive Word
  /-- A long option, perhaps with a value. -/
  | long (name : String) (value : Option String)
  /-- Letters of short options, or one with its value. -/
  | short (letters : List Char)
  /-- The mark behind which nothing is an option. -/
  | mark
  /-- Anything else. -/
  | plain
deriving DecidableEq

/-- The shape of an argument. -/
def Word.ofText (text : String) : Word :=
  match text.toList with
  | ['-', '-'] => .mark
  | '-' :: '-' :: cs =>
    let (name, rest) := cs.span (· ≠ '=')
    match rest with
    | _ :: value => .long (String.ofList name) (some (String.ofList value))
    | [] => .long (String.ofList name) none
  | ['-'] => .plain
  | '-' :: cs => .short cs
  | _ => .plain

/-! ## Options -/

/-- Options with their values; the value of one without is empty. -/
abbrev Given := List (Flag × String)

/-- How far the reading of options has come. -/
inductive Progress
  /-- On with what is given. -/
  | on (given : Given)
  /-- The last option still needs its value. -/
  | awaiting (flag : Flag) (given : Given)
  /-- A request was met that is answered at once. -/
  | asked (request : Request)

/-- One more option with its value. -/
def take (given : Given) (flag : Flag) (value : String) : Except UsageFault Progress :=
  if flag.admits value = false then .error (.badValue flag value)
  else if given.any (·.1 = flag) then .error (.repeated flag)
  else
    match flag with
    | .version => .ok (.asked .version)
    | .help => .ok (.asked .help)
    | _ => .ok (.on ((flag, value) :: given))

/-- Letters of short options, among those that are known. -/
def takeLetters (known : List Flag) (given : Given) : List Char → Except UsageFault Progress
  | [] => .ok (.on given)
  | c :: cs =>
    match known.find? (·.letter = c) with
    | none => .error (.unexpected (String.ofList ['-', c]))
    | some flag =>
      if flag.takesValue then
        match cs with
        | [] => .ok (.awaiting flag given)
        | '=' :: cs => take given flag (String.ofList cs)
        | cs => take given flag (String.ofList cs)
      else
        match take given flag "" with
        | .ok (.on given) => takeLetters known given cs
        | other => other

/-- A long option, among those that are known. -/
def takeLong (known : List Flag) (given : Given) (name : String) (value : Option String) :
    Except UsageFault Progress :=
  match known.find? (·.name = name), value with
  | none, _ => .error (.unexpected s!"--{name}")
  | some flag, some value =>
    if flag.takesValue then take given flag value else .error (.badValue flag value)
  | some flag, none =>
    if flag.takesValue then .ok (.awaiting flag given) else take given flag ""

/-- What stands at the front of some arguments. -/
inductive Front
  /-- Options, and the arguments behind them. -/
  | read (given : Given) (rest : List String)
  /-- A request was met that is answered at once. -/
  | asked (request : Request)

/-- Reads options, among those that are known, up to the first argument that is
none.  The option read last may still await its value. -/
def readFront (known : List Flag) (given : Given) :
    Option Flag → List String → Except UsageFault Front
  | some flag, [] => .error (.valueMissing flag)
  | none, [] => .ok (.read given [])
  | some flag, argument :: rest =>
    match Word.ofText argument with
    | .plain =>
      match take given flag argument with
      | .ok (.on given) => readFront known given none rest
      | .ok (.awaiting flag given) => readFront known given (some flag) rest
      | .ok (.asked request) => .ok (.asked request)
      | .error fault => .error fault
    | _ => .error (.valueMissing flag)
  | none, argument :: rest =>
    let progress := match Word.ofText argument with
      | .long name value => some (takeLong known given name value)
      | .short letters => some (takeLetters known given letters)
      | _ => none
    match progress with
    | none => .ok (.read given (argument :: rest))
    | some (.ok (.on given)) => readFront known given none rest
    | some (.ok (.awaiting flag given)) => readFront known given (some flag) rest
    | some (.ok (.asked request)) => .ok (.asked request)
    | some (.error fault) => .error fault

/-! ## Calls -/

/-- The options that are not about one command. -/
def sharedFlags : List Flag := [.config, .logLevel, .verbose, .help]

/-- The options that a command needs; nothing for a word that is no command. -/
def needs? : String → Option (List Flag)
  | "resolve" => some [.fixture]
  | "check" => some [.fixture, .event]
  | _ => none

/-- The value of an option that must be given. -/
def required (given : Given) (flag : Flag) : Except UsageFault String :=
  match given.lookup flag with
  | some value => .ok value
  | none => .error (.flagMissing flag)

/-- Fails when an argument follows the mark, or is there without it. -/
def expectEnd : List String → Except UsageFault Unit
  | [] => .ok ()
  | argument :: rest =>
    match Word.ofText argument, rest with
    | .mark, [] => .ok ()
    | .mark, next :: _ => .error (.unexpected next)
    | _, _ => .error (.unexpected argument)

/-- The command of a name, with what its options say. -/
def commandOf (name : String) (given : Given) : Except UsageFault Command := do
  let fixture ← required given .fixture
  if name = "check" then pure (.check fixture (← required given .event))
  else pure (.resolve fixture)

/-- What a call with some arguments asks for. -/
def Request.ofArguments (arguments : List String) : Except UsageFault Request := do
  match ← readFront (.version :: sharedFlags) [] none arguments with
  | .asked request => pure request
  | .read _ [] => .error .commandMissing
  | .read before (name :: rest) =>
    match needs? name with
    | none => .error (.unexpected name)
    | some flags =>
      match ← readFront (flags ++ sharedFlags) [] none rest with
      | .asked request => pure request
      | .read behind rest => do
        expectEnd rest
        let command ← commandOf name behind
        -- What stands behind the command is found first.
        pure (.run ⟨(behind ++ before).lookup .config, command⟩)

end StateResolution.CommandLine
