import StateResolution.Event.StateKey
import StateResolution.Identifier.Basic
import StateResolution.Text.Quoted

/-!
# Errors

Why an operation could not answer.  An event that fails authorization is no
error; it is an answer.  Each error names its cause, and `Error.message` alone
holds the wording.

Only a fault of the store may pass when the operation is tried again.  A broken
graph and bad input stay as they are.
-/

namespace StateResolution

/-- Why an event could not be supplied. -/
inductive FetchFault
  /-- A lookup of one event found nothing. -/
  | notInStore
  /-- An event that the closure walk came across is not stored. -/
  | referenceNotInStore
  /-- An event that a single check needs is not stored. -/
  | authEventNotInStore
  /-- The graph at hand does not hold the event. -/
  | notInGraph
  /-- The words of a store. -/
  | reported (text : String)
deriving DecidableEq

/-- What is wrong with the graph of auth events. -/
inductive GraphFault
  /-- The closure of the roots has too many levels. -/
  | closureTooDeep (limit : Nat)
  /-- A chain of citations from an event is too long. -/
  | chainTooLong (root : EventId) (limit : Nat)
  /-- An event cites one that leads back to it. -/
  | cycle (event cited : EventId)
  /-- So many events cannot be put after all they cite. -/
  | unsortable (count : Nat)
  /-- The power levels lineage of the resolved power levels repeats or is too
  long; no event was placed when the limit is zero. -/
  | endlessLineage (newest : Option EventId)
  /-- The power levels lineage of an event repeats or is too long at one of its
  events. -/
  | endlessAncestry (event : EventId)
  /-- Words from elsewhere. -/
  | reported (text : String)
deriving DecidableEq

/-- Why an event cannot be used. -/
inductive EventFault
  /-- An event of another room is in the graph. -/
  | wrongRoom (event : EventId) (room expected : RoomId)
  /-- The create event is another room's. -/
  | createWrongRoom (event : EventId) (room : RoomId)
  /-- The inputs hold different create events. -/
  | conflictingCreates (first second : EventId)
  /-- There is no state to check against. -/
  | noStateMap
  /-- Words from elsewhere. -/
  | reported (text : String)
deriving DecidableEq

/-- What is not known. -/
inductive Missing
  /-- A room that has had no update. -/
  | room (id : RoomId)
  /-- An event that a fixture does not hold. -/
  | fixtureEvent (event : EventId)
  /-- A fixture file that cannot be read. -/
  | fixtureFile (path reason : String)
  /-- Words from elsewhere. -/
  | reported (text : String)
deriving DecidableEq

/-- What is wrong with the value of a setting. -/
inductive SettingFault
  /-- A setting must be positive. -/
  | zero (setting : String)
  /-- A setting must not be empty. -/
  | blank (setting : String)
  /-- A setting asks for more than memory can be laid out for. -/
  | beyondMemory (setting : String)
  /-- Words from elsewhere. -/
  | reported (text : String)
deriving DecidableEq

/-- Why a configuration cannot be read. -/
inductive ConfigFault
  /-- The file does not exist. -/
  | noFile (path : String)
  /-- The file cannot be read, or its content is not a configuration. -/
  | malformed
  /-- A string in an environment variable is cut inside a character. -/
  | cutString (text : String)
  /-- Words from elsewhere. -/
  | reported (text : String)
deriving DecidableEq

/-- Why a document cannot be read. -/
inductive DecodeFault
  /-- The document is not of the form asked for. -/
  | malformed
  /-- Two entries of a state map have one key. -/
  | repeatedEntry (key : StateKey)
  /-- Words from elsewhere. -/
  | reported (text : String)
deriving DecidableEq

/-- Why an operation could not answer. -/
inductive Error
  /-- A configuration cannot be read. -/
  | config (fault : ConfigFault)
  /-- A setting has a value that cannot be used. -/
  | invalidConfig (fault : SettingFault)
  /-- A value cannot be written. -/
  | serialization (text : String)
  /-- A document cannot be read. -/
  | deserialization (fault : DecodeFault)
  /-- The store did not supply an event. -/
  | fetch (event : String) (fault : FetchFault)
  /-- The graph of auth events cannot be walked. -/
  | graphCorruption (fault : GraphFault)
  /-- An event cannot be used. -/
  | invalidEvent (fault : EventFault)
  /-- There are no rules for a room version. -/
  | unsupportedRoomVersion (version : String)
  /-- Something asked for is not known. -/
  | notFound (what : Missing)
  /-- A fault of the program. -/
  | internal (text : String)
deriving DecidableEq

def FetchFault.message : FetchFault → String
  | notInStore => "event not found in store"
  | referenceNotInStore => "referenced event not found in store"
  | authEventNotInStore => "auth event not found in store"
  | notInGraph => "event missing from prefetched graph"
  | reported text => text

def GraphFault.message : GraphFault → String
  | closureTooDeep limit => s!"auth chain exceeds {limit} levels"
  | chainTooLong root limit => s!"auth chain of {root.text} exceeds {limit} levels"
  | cycle event cited => s!"auth_events cycle through {event.text} and {cited.text}"
  | unsortable count => s!"auth_events cycle among {count} conflicted events"
  | endlessLineage newest =>
    "power levels lineage of " ++ (newest.map EventId.text).getD "" ++ " does not terminate"
  | endlessAncestry event => s!"power levels ancestry of {event.text} does not terminate"
  | reported text => text

def EventFault.message : EventFault → String
  | wrongRoom event room expected =>
    s!"event {event.text} belongs to {room.text}, not {expected.text}"
  | createWrongRoom event room => s!"create event {event.text} belongs to {room.text}"
  | conflictingCreates first second =>
    s!"conflicting create events {first.text} and {second.text}"
  | noStateMap => "fixture has no state maps"
  | reported text => text

def Missing.message : Missing → String
  | room id => s!"no state known for room {id.text}"
  | fixtureEvent event => s!"event {event.text} is not in the fixture"
  | fixtureFile path reason => s!"cannot read fixture {path}: {reason}"
  | reported text => text

def SettingFault.message : SettingFault → String
  | zero setting => s!"{setting} must be greater than 0"
  | blank setting => s!"{setting} cannot be empty"
  | beyondMemory setting => s!"{setting} is more than memory can hold"
  | reported text => text

def ConfigFault.message : ConfigFault → String
  | noFile path => s!"config file {path} does not exist"
  | malformed => "the file is not a configuration"
  | cutString text => s!"a variable holds a string that is cut inside a character: `{text}`"
  | reported text => text

def DecodeFault.message : DecodeFault → String
  | malformed => "the document is not of the expected form"
  | repeatedEntry key =>
    "duplicate state entry for (" ++ key.type ++ ", " ++ Text.quoted key.key ++ ")"
  | reported text => text

namespace Error

/-- The wording of an error. -/
def message : Error → String
  | config fault => "Configuration error: " ++ fault.message
  | invalidConfig fault => "Invalid configuration: " ++ fault.message
  | serialization text => "Serialization error: " ++ text
  | deserialization fault => "Deserialization error: " ++ fault.message
  | fetch event fault => s!"Failed to fetch event {event}: " ++ fault.message
  | graphCorruption fault => "Event graph corruption: " ++ fault.message
  | invalidEvent fault => "Invalid event: " ++ fault.message
  | unsupportedRoomVersion version => "Unsupported room version: " ++ version
  | notFound what => "Resource not found: " ++ what.message
  | internal text => "Internal error: " ++ text

/-- Whether trying again later may help. -/
def isRetryable : Error → Bool
  | fetch _ _ => true
  | _ => false

/-- Whether the program breaks off at an error instead of reporting it. -/
def breaksOff : Error → Bool
  | config (.cutString _) => true
  | invalidConfig (.beyondMemory _) => true
  | _ => false

/-- The error of an event that the graph at hand does not hold. -/
def notInGraph (event : EventId) : Error := fetch event.text .notInGraph

/-- The error of a document that is not of the form asked for. -/
def malformed : Error := deserialization .malformed

end Error

end StateResolution
