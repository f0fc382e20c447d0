import StateResolution.Error

/-!
# Rejections

Why the rules refuse an event.  A rejection is an answer and not a fault: the
same event is refused wherever the same rules see the same state.  Each
rejection names its cause, and `Rejection.message` alone holds the wording.
-/

namespace StateResolution

/-- What is wrong with a create event. -/
inductive CreateFault
  /-- It follows other events. -/
  | hasPrevEvents
  /-- Its room id names another server than its sender does. -/
  | otherServer
  /-- There are no rules for its version. -/
  | unsupportedVersion (version : String)
  /-- It names no creator. -/
  | noCreator
deriving DecidableEq

/-- What is wrong with an invite of somebody outside. -/
inductive OutsideFault
  /-- The signed part is missing. -/
  | notSigned
  /-- The signed part lacks the user or the token. -/
  | noUserOrToken
  /-- The signed part names another user. -/
  | otherUser
  /-- No outside invite has the token. -/
  | noMatch
  /-- The outside invite is somebody else's. -/
  | otherSender
  /-- There are no signatures. -/
  | noSignatures
  /-- The outside invite has no public key. -/
  | noPublicKey
deriving DecidableEq

/-- Why a change of membership is refused. -/
inductive Denial
  /-- The user is banned. -/
  | banned (user : String)
  /-- The user is in the room. -/
  | alreadyJoined (user : String)
  /-- The user is invited. -/
  | alreadyInvited (user : String)
  /-- Nobody joins for somebody else. -/
  | joinForOther
  /-- Nobody knocks for somebody else. -/
  | knockForOther
  /-- The join rule lets nobody join this way. -/
  | joinRule (rule : String)
  /-- The join rule lets nobody knock. -/
  | knockRule (rule : String)
  /-- The user has no invite. -/
  | notInvited
  /-- No member vouches for the user. -/
  | noAuthoriser
  /-- The sender may not lift the ban. -/
  | unban (user : String)
  /-- The sender may not remove the user. -/
  | kick (user : String)
  /-- The sender may not ban the user. -/
  | ban (user : String)
  /-- The word is no membership of this version. -/
  | unknown (membership : String)
  /-- The invite of somebody outside is not in order. -/
  | outside (fault : OutsideFault)
deriving DecidableEq

/-- What is wrong with the levels that an event sets. -/
inductive LevelsFault
  /-- A value is no level; the value is given as it is written. -/
  | notALevel (place value : String)
  /-- A table of levels is no object. -/
  | notATable (table : String)
  /-- A key of the users is no user id. -/
  | notAUser (key : String)
  /-- The level of an equal would change. -/
  | equalUser (user : String)
deriving DecidableEq

/-- What is wrong with the content of an event. -/
inductive ContentFault
  /-- A cited event sets no state. -/
  | notState (event : EventId)
  /-- A member event gives no membership. -/
  | noMembership
  /-- A member event names no user. -/
  | noStateKey
deriving DecidableEq

/-- Why an event is refused. -/
inductive Rejection
  /-- The room's create event is not there. -/
  | missingCreate
  /-- The create event is not in order. -/
  | invalidCreate (fault : CreateFault)
  /-- Two cited events hold one place. -/
  | duplicateAuthEvent (place : StateKey)
  /-- A cited event holds a place that does not matter for the event. -/
  | unexpectedAuthEvent (place : StateKey)
  /-- A cited event is another room's. -/
  | authEventWrongRoom (event : EventId)
  /-- The room is closed to other servers. -/
  | notFederatable
  /-- The user who acts or vouches is not in the room. -/
  | senderNotJoined (user : String)
  /-- The user who acts or vouches has too low a level. -/
  | insufficientPower (required actual : Int)
  /-- Only the named user may use the state key. -/
  | stateKeyNotSender (key : String)
  /-- The change of membership is refused. -/
  | membership (denial : Denial)
  /-- The levels cannot be set. -/
  | invalidPowerLevels (fault : LevelsFault)
  /-- The content cannot be used. -/
  | malformedContent (fault : ContentFault)
deriving DecidableEq

/-- What the rules say of an event. -/
abbrev Verdict := Except Rejection Unit

def CreateFault.message : CreateFault → String
  | hasPrevEvents => "create event has prev_events"
  | otherServer => "room id and sender belong to different servers"
  | unsupportedVersion version => (Error.unsupportedRoomVersion version).message
  | noCreator => "creator is missing"

def OutsideFault.message : OutsideFault → String
  | notSigned => "signed block is missing"
  | noUserOrToken => "mxid or token is missing"
  | otherUser => "mxid does not match the invited user"
  | noMatch => "no matching m.room.third_party_invite"
  | otherSender => "invite was sent by another user"
  | noSignatures => "signatures are missing"
  | noPublicKey => "m.room.third_party_invite has no public key"

def Denial.message : Denial → String
  | banned user => s!"{user} is banned from the room"
  | alreadyJoined user => s!"{user} is already in the room"
  | alreadyInvited user => s!"{user} is already invited"
  | joinForOther => "cannot force another user to join"
  | knockForOther => "cannot knock for another user"
  | joinRule rule => s!"join rule {rule} does not allow joining"
  | knockRule rule => s!"join rule {rule} does not allow knocking"
  | notInvited => "not invited to this room"
  | noAuthoriser => "restricted join without an authorising user"
  | unban user => s!"cannot unban {user}"
  | kick user => s!"cannot kick {user}"
  | ban user => s!"cannot ban {user}"
  | unknown membership => s!"unknown membership {membership}"
  | outside fault => "invalid third-party invite: " ++ fault.message

def LevelsFault.message : LevelsFault → String
  | notALevel place value => s!"{place} is not a valid power level: {value}"
  | notATable table => s!"{table} must be an object"
  | notAUser key => s!"not a valid user id: {key}"
  | equalUser user => s!"cannot change the level of {user} which equals the sender's"

def ContentFault.message : ContentFault → String
  | notState event => s!"auth event {event.text} is not a state event"
  | noMembership => "membership is missing"
  | noStateKey => "member event without state key"

/-- A place as it stands in a message. -/
def StateKey.quoted (k : StateKey) : String :=
  "(" ++ k.type ++ ", " ++ Text.quoted k.key ++ ")"

def Rejection.message : Rejection → String
  | missingCreate => "no m.room.create event among the auth events"
  | invalidCreate fault => "invalid m.room.create event: " ++ fault.message
  | duplicateAuthEvent place => "duplicate auth event for " ++ place.quoted
  | unexpectedAuthEvent place =>
    "auth event " ++ place.quoted ++ " is not allowed for this event"
  | authEventWrongRoom event => s!"auth event {event.text} belongs to another room"
  | notFederatable => "room does not federate with the sender's server"
  | senderNotJoined user => s!"sender {user} is not joined to the room"
  | insufficientPower required actual =>
    s!"sender power level {actual} is below the required {required}"
  | stateKeyNotSender key => s!"state key {key} can only be set by that user"
  | membership denial => "membership change not allowed: " ++ denial.message
  | invalidPowerLevels fault => "invalid power levels: " ++ fault.message
  | malformedContent fault => "malformed event content: " ++ fault.message

end StateResolution
