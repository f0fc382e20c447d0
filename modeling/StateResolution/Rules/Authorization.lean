import StateResolution.Rules.LevelChange
import StateResolution.Rules.Membership

/-!
# Authorization

Whether an event is allowed, given the auth events it is judged against and the
rules of the room's version.  A create event stands alone and brings its version
with it.
-/

namespace StateResolution

open Identifier (serverOf?)

/-- Judges a create event. -/
def checkCreate (e : Event) : Verdict :=
  let invalid (fault : CreateFault) : Verdict := .error (.invalidCreate fault)
  if !e.prevEvents.isEmpty then invalid .hasPrevEvents
  else if serverOf? e.room.text ≠ serverOf? e.sender.text then invalid .otherServer
  else
    match RoomVersion.ofName? (RoomVersion.nameIn e) with
    | none => invalid (.unsupportedVersion (RoomVersion.nameIn e))
    | some version =>
      if !version.hasImplicitCreator && (e.content.field? "creator").isNone then invalid .noCreator
      else .ok ()

/-- Refuses a state key that names a user other than the sender. -/
def checkStateKey (e : Event) : Verdict :=
  match e.stateKey with
  | some key =>
    if key.toList.head? = some '@' ∧ key ≠ e.sender.text then .error (.stateKeyNotSender key)
    else .ok ()
  | none => .ok ()

/-- Judges an event of a member that is neither a create nor a member event. -/
def checkOther (e : Event) (auth : AuthEvents) (version : RoomVersion) : Verdict := do
  let sender := e.sender.text
  if auth.membership? sender ≠ some .join then throw (.senderNotJoined sender)
  let levels := effectiveLevels auth version
  let level := levels.userLevel sender
  if e.type = EventType.thirdPartyInvite then requireLevel (levels.named .invite) level
  else
    requireLevel (levels.sendLevel e.type e.isState) level
    checkStateKey e
    if e.type = EventType.powerLevels then checkLevelChange e auth version level

/-- Judges an event against its auth events. -/
def checkEvent (e : Event) (auth : AuthEvents) (version : RoomVersion) : Verdict :=
  if e.type = EventType.create then checkCreate e
  else
    match auth.create? with
    | none => .error .missingCreate
    | some create => do
      checkFederation e.sender.text create
      if e.type = EventType.member then checkMembership e create auth version
      else checkOther e auth version

end StateResolution
