import StateResolution.CommandLine.Arguments
import StateResolution.CommandLine.Folder
import StateResolution.Fixture
import StateResolution.Json.Printer
import StateResolution.Resolver.Basic
import StateResolution.Resolver.SingleCheck
import StateResolution.Settings.Basic

/-!
# The command line tool

The tool resolves the states of a fixture, or checks one of its events against
the first of them, and prints the answer as JSON.  An event that is rejected is
an answer too.

A call goes through its arguments, its settings, its fixture and its event, in
this order, and the first of them that fails decides what is said.
-/

namespace StateResolution.CommandLine

def toolName : String := "matrixon-stateres"

def toolVersion : String := "0.11.0-alpha"

def usage : String :=
  s!"Usage: {toolName} [-c FILE] resolve -f FILE\n"
  ++ s!"       {toolName} [-c FILE] check -f FILE -e EVENT\n"
  ++ s!"       {toolName} --version\n"

/-- Why a call came to nothing. -/
inductive Fault
  /-- Its arguments cannot be understood. -/
  | usage (fault : UsageFault)
  /-- Its settings cannot be used. -/
  | settings (error : Error)
  /-- The fixture cannot be loaded. -/
  | loading (path : String) (error : Error)
  /-- The event to check has no event id. -/
  | eventId (text : String)
  /-- The command failed. -/
  | command (error : Error)
  /-- It broke off in the middle. -/
  | brokenOff (error : Error)
deriving DecidableEq

/-- The line that says why a call came to nothing. -/
def Fault.message : Fault → String
  | usage fault => s!"error: {fault.message}\n\n{StateResolution.CommandLine.usage}"
  | settings error =>
    s!"It looks like your config is invalid. The following error occurred: {error.message}\n"
  | loading path error => s!"Error: loading fixture {path}: {error.message}\n"
  | eventId text => s!"Error: invalid event id {text}: an event id starts with $\n"
  | command error => s!"Error: {error.message}\n"
  | brokenOff error => s!"{toolName} broke off: {error.message}\n"

/-- The exit code of a call that came to nothing. -/
def Fault.exitCode : Fault → Nat
  | usage _ => 2
  | brokenOff _ => 101
  | _ => 1

/-- A fault of some kind, unless its error breaks the call off. -/
def Fault.ofError (kind : Error → Fault) (error : Error) : Fault :=
  if error.breaksOff then .brokenOff error else kind error

/-- The end of a call. -/
structure Report where
  exitCode : Nat
  /-- What goes to the standard output. -/
  output : String
  /-- What goes to the standard error. -/
  complaint : String
deriving DecidableEq

/-! ## Loading -/

/-- The text of the settings file, when there is one.  A directory in its place
holds no settings. -/
def settingsText (folder : Folder) : Option String → Except Error (Option String)
  | none => .ok none
  | some path =>
    match folder path with
    | .text content => .ok (some content)
    | .directory => .ok none
    | .absent | .throughFile | .tooLong => .error (.config (.noFile path))
    | .unreadable _ => .error (.config .malformed)

/-- The configuration for a call. -/
def loadConfiguration (folder : Folder) (environment : List (String × String))
    (path : Option String) : Except Error Configuration := do
  Configuration.ofLayers (← settingsText folder path) environment

/-- The fixture in a file. -/
def loadFixture (folder : Folder) (path : String) : Except Error Fixture :=
  match (folder path).content with
  | .ok text => Fixture.ofText text
  | .error reason => .error (.notFound (.fixtureFile path reason))

/-! ## Commands -/

/-- The answer to a resolved fixture. -/
def resolutionReport (room : RoomId) (r : Resolution) : Json :=
  .object [("room_id", .string room.text), ("state", r.state.toJson),
    ("rejected", .array (r.rejected.toList.map fun (id, reason) =>
      .object [("event_id", .string id.text), ("reason", .string reason.message)]))]

/-- The answer to a checked event. -/
def verdictReport (id : EventId) : Verdict → Json
  | .ok () => .object [("event_id", .string id.text), ("accepted", .bool true)]
  | .error reason =>
    .object [("event_id", .string id.text), ("accepted", .bool false),
      ("reason", .string reason.message)]

/-- The fixture that a command is about. -/
def fixtureFor (folder : Folder) (path : String) : Except Fault Fixture :=
  (loadFixture folder path).mapError (.loading path)

/-- Resolves the states of a fixture. -/
def runResolve (folder : Folder) (config : Configuration) (path : String) : Except Fault Json := do
  let f ← fixtureFor folder path
  Except.mapError (.ofError .command) do
    let resolver ← Resolver.ofConfiguration config
    pure (resolutionReport f.room (← (resolver.resolve f.store f.room f.stateMaps).2.outcome))

/-- Checks an event of a fixture. -/
def runCheck (folder : Folder) (config : Configuration) (path event : String) :
    Except Fault Json := do
  let f ← fixtureFor folder path
  match EventId.ofText? event with
  | none => .error (.eventId event)
  | some id => Except.mapError (.ofError .command) do
    let e ← f.event id
    let state ← f.firstStateMap
    let _ ← Resolver.ofConfiguration config
    pure (verdictReport e.id (← (checkAgainstState f.store e state).outcome))

/-- Does what a command says. -/
def runCommand (folder : Folder) (config : Configuration) : Command → Except Fault Json
  | .resolve fixture => runResolve folder config fixture
  | .check fixture event => runCheck folder config fixture event

/-- What a request is answered with. -/
def respond (folder : Folder) (environment : List (String × String)) : Request → Except Fault String
  | .version => .ok s!"{toolName} {toolVersion}\n"
  | .help => .ok usage
  | .run arguments => do
    let loaded := loadConfiguration folder environment arguments.config
    let config ← loaded.mapError (.ofError .settings)
    let answer ← runCommand folder config arguments.command
    pure (answer.canonical.pretty ++ "\n")

/-- A whole call of the tool. -/
def run (arguments : List String) (environment : List (String × String)) (folder : Folder) :
    Report :=
  let result := do
    let request ← (Request.ofArguments arguments).mapError Fault.usage
    respond folder environment request
  match result with
  | .ok output => ⟨0, output, ""⟩
  | .error fault => ⟨fault.exitCode, "", fault.message⟩

/-- The files that a call with some arguments reads. -/
def filesOf (arguments : List String) : List String :=
  match Request.ofArguments arguments with
  | .ok (.run a) =>
    let fixture := match a.command with
      | .resolve fixture => fixture
      | .check fixture _ => fixture
    a.config.toList ++ [fixture]
  | _ => []

end StateResolution.CommandLine
