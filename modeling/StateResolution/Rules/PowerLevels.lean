import StateResolution.Identifier.Basic
import StateResolution.Json.Printer
import StateResolution.Rules.Rejection
import StateResolution.Rules.RoomVersion
import StateResolution.Text.Blank

/-!
# Power levels

What everybody may do in a room: seven named levels, and three tables of levels
by user, by event type and by kind of notification.  A value that is no level
counts as absent when the levels in force are read, and is refused when an event
that sets it is judged.
-/

namespace StateResolution

/-- A level with a name of its own. -/
inductive NamedLevel
  /-- What a user without an entry has. -/
  | usersDefault
  /-- What a message without an entry takes. -/
  | eventsDefault
  /-- What a state event without an entry takes. -/
  | stateDefault
  /-- What a ban takes. -/
  | ban
  /-- What a redaction takes. -/
  | redact
  /-- What removing a user takes. -/
  | kick
  /-- What an invite takes. -/
  | invite
deriving DecidableEq

namespace NamedLevel

def name : NamedLevel → String
  | usersDefault => "users_default"
  | eventsDefault => "events_default"
  | stateDefault => "state_default"
  | ban => "ban"
  | redact => "redact"
  | kick => "kick"
  | invite => "invite"

/-- The level when the content has none. -/
def default : NamedLevel → Int
  | usersDefault => 0
  | eventsDefault => 0
  | stateDefault => 50
  | ban => 50
  | redact => 50
  | kick => 50
  | invite => 0

/-- All named levels, in the order they are judged. -/
def all : List NamedLevel :=
  [usersDefault, eventsDefault, stateDefault, ban, redact, kick, invite]

theorem mem_all (l : NamedLevel) : l ∈ all := by cases l <;> decide

end NamedLevel

/-- A table of levels. -/
inductive LevelTable
  /-- What users have. -/
  | users
  /-- What events take. -/
  | events
  /-- What notifications take. -/
  | notifications
deriving DecidableEq

namespace LevelTable

def name : LevelTable → String
  | users => "users"
  | events => "events"
  | notifications => "notifications"

/-- All tables, in the order they are judged. -/
def all : List LevelTable := [users, events, notifications]

theorem mem_all (t : LevelTable) : t ∈ all := by cases t <;> decide

end LevelTable

/-- Where a level stands in the content. -/
inductive LevelPlace
  /-- Under a name of its own. -/
  | named (level : NamedLevel)
  /-- Under a key of a table. -/
  | entry (table : LevelTable) (key : String)
deriving DecidableEq

/-- The level a value gives: an integer, or, unless only numbers count, a text
that holds one between blanks. -/
def readLevel? (integerOnly : Bool) : Json → Option Int
  | .number (.integer n) => if Text.fitsSigned n then some n else none
  | .string s => if integerOnly then none else Text.signed? (Text.trim s.toList)
  | _ => none

/-- The value of the content at a place. -/
def levelValue? (content : Json) : LevelPlace → Option Json
  | .named level => content.field? level.name
  | .entry table key => (content.field? table.name).bind (·.field? key)

/-- The level the content gives at a place; a text may hold it. -/
def levelAt? (content : Json) (place : LevelPlace) : Option Int :=
  (levelValue? content place).bind (readLevel? false)

/-- The entries of a table in the content. -/
def tableEntries? (content : Json) (table : LevelTable) : Option (SortedMap String Json) :=
  (content.field? table.name).bind Json.members?

/-- The keys of a table in the content. -/
def tableKeys (content : Json) (table : LevelTable) : SortedSet String :=
  match tableEntries? content table with
  | some entries => entries.keySet
  | none => .empty

/-- The levels in force in a room. -/
structure PowerLevels where
  named : NamedLevel → Int
  table : LevelTable → SortedMap String Int

namespace PowerLevels

/-- The levels that an event with some content sets. -/
def ofContent (content : Json) : PowerLevels where
  named level := ((content.field? level.name).bind (readLevel? false)).getD level.default
  table t :=
    match tableEntries? content t with
    | some entries => entries.filterMap (readLevel? false)
    | none => .empty

/-- The levels before any event sets them: the creator has 100, and who is in the
room may send anything. -/
def withoutEvent (creator : Option String) : PowerLevels where
  named level := if level = .stateDefault then 0 else level.default
  table
    | .users =>
      match creator with
      | some user => SortedMap.empty.insert user 100
      | none => .empty
    | _ => .empty

/-- The level a user has. -/
def userLevel (levels : PowerLevels) (user : String) : Int :=
  ((levels.table .users).get? user).getD (levels.named .usersDefault)

/-- The level that sending an event of a type takes. -/
def sendLevel (levels : PowerLevels) (type : String) (isState : Bool) : Int :=
  ((levels.table .events).get? type).getD
    (levels.named (if isState then .stateDefault else .eventsDefault))

end PowerLevels

/-- Judges the value of one named level. -/
def checkNamedLevel (content : Json) (integerOnly : Bool) (level : NamedLevel) : Verdict :=
  match content.field? level.name with
  | some value =>
    if (readLevel? integerOnly value).isSome then .ok ()
    else .error (.invalidPowerLevels (.notALevel level.name value.compact))
  | none => .ok ()

/-- Judges one entry of a table; the keys of the users must be user ids. -/
def checkLevelEntry (integerOnly : Bool) (table : LevelTable) (entry : String × Json) : Verdict :=
  if table = .users ∧ Identifier.isUserId entry.1 = false then
    .error (.invalidPowerLevels (.notAUser entry.1))
  else if (readLevel? integerOnly entry.2).isSome then .ok ()
  else
    .error (.invalidPowerLevels (.notALevel (table.name ++ "." ++ entry.1) entry.2.compact))

/-- Judges one table. -/
def checkLevelTable (content : Json) (integerOnly : Bool) (table : LevelTable) : Verdict :=
  match content.field? table.name with
  | none => .ok ()
  | some value =>
    match value.members? with
    | none => .error (.invalidPowerLevels (.notATable table.name))
    | some entries => entries.toList.forM (checkLevelEntry integerOnly table)

/-- Judges the form of the content of a power levels event: every value that is
there must be a level in the room's version. -/
def checkLevelsContent (content : Json) (version : RoomVersion) : Verdict := do
  NamedLevel.all.forM (checkNamedLevel content version.hasIntegerLevels)
  LevelTable.all.forM (checkLevelTable content version.hasIntegerLevels)

end StateResolution
