import StateResolution.Error
import StateResolution.Event.Basic

/-!
# Room versions

The versions of the authorization rules, and where they differ.  Each
difference came with one version and stayed.
-/

namespace StateResolution

/-- A room version whose rules are known. -/
inductive RoomVersion
  | v6
  | v7
  | v8
  | v9
  | v10
  | v11
deriving DecidableEq

namespace RoomVersion

def number : RoomVersion → Nat
  | v6 => 6
  | v7 => 7
  | v8 => 8
  | v9 => 9
  | v10 => 10
  | v11 => 11

/-- All versions, oldest first. -/
def all : List RoomVersion := [v6, v7, v8, v9, v10, v11]

def name (v : RoomVersion) : String := toString v.number

/-- Users may knock, and a room may let them. -/
def hasKnock (v : RoomVersion) : Bool := 7 ≤ v.number

/-- A room may let in whom one of its members vouches for. -/
def hasRestricted (v : RoomVersion) : Bool := 8 ≤ v.number

/-- A room may do both at once. -/
def hasKnockRestricted (v : RoomVersion) : Bool := 10 ≤ v.number

/-- A power level must be a number, and not a text that holds one. -/
def hasIntegerLevels (v : RoomVersion) : Bool := 10 ≤ v.number

/-- The creator is who sent the create event, whatever its content says. -/
def hasImplicitCreator (v : RoomVersion) : Bool := 11 ≤ v.number

def ofName? (name : String) : Option RoomVersion :=
  if name = "6" then some v6
  else if name = "7" then some v7
  else if name = "8" then some v8
  else if name = "9" then some v9
  else if name = "10" then some v10
  else if name = "11" then some v11
  else none

/-- The version of a name, or the error that there are no rules for it. -/
def ofName (name : String) : Except Error RoomVersion :=
  match ofName? name with
  | some v => .ok v
  | none => .error (.unsupportedRoomVersion name)

/-- The version a create event names; one that names none means version 1. -/
def nameIn (create : Event) : String := (create.content.stringField? "room_version").getD "1"

/-- The rules of the room that a create event starts. -/
def ofCreate (create : Event) : Except Error RoomVersion := ofName (nameIn create)

end RoomVersion

end StateResolution
