import StateResolution.Identifier.ServerName
import StateResolution.Rules.AuthEvents

/-!
# Membership rules

Who may join, invite, leave, remove, ban and knock.  A member event is about the
user its state key names, the target, and it is the sender who acts.

The creator of a room joins it before anything else is in force
(`isCreatorsFirstJoin`).  Every other change is judged in a `Scene`, what the
auth events say of the sender and the target.
-/

namespace StateResolution

open Identifier (serverOf?)

/-- Refuses an action that takes a higher level. -/
def requireLevel (required actual : Int) : Verdict :=
  if actual < required then .error (.insufficientPower required actual) else .ok ()

/-- Refuses a change of membership unless a condition holds. -/
def require (condition : Bool) (otherwise : Denial) : Verdict :=
  if condition then .ok () else .error (.membership otherwise)

/-- Refuses users of other servers in a room that is closed to them. -/
def checkFederation (user : String) (create : Event) : Verdict :=
  let federates := ((create.content.field? "m.federate").bind Json.bool?).getD true
  if !federates && serverOf? user != serverOf? create.sender.text then .error .notFederatable
  else .ok ()

/-- Whether an event is the creator's join straight after the create event. -/
def isCreatorsFirstJoin (e create : Event) (version : RoomVersion) (target : String) : Bool :=
  e.membership? == some .join && e.prevEvents == [create.id]
    && roomCreator? create version == some target

/-- Who acts on whom, and what the auth events say of both. -/
structure Scene where
  /-- The user who acts. -/
  sender : String
  /-- The user whose membership changes. -/
  target : String
  /-- The sender's membership. -/
  senderIs : Option Membership
  /-- The target's membership. -/
  targetIs : Option Membership
  levels : PowerLevels
  joinRule : String

namespace Scene

/-- The scene of an event. -/
def ofEvent (e : Event) (target : String) (auth : AuthEvents) (version : RoomVersion) : Scene where
  sender := e.sender.text
  target := target
  senderIs := auth.membership? e.sender.text
  targetIs := auth.membership? target
  levels := effectiveLevels auth version
  joinRule := auth.joinRule

def senderLevel (s : Scene) : Int := s.levels.userLevel s.sender

def targetLevel (s : Scene) : Int := s.levels.userLevel s.target

def senderJoined (s : Scene) : Bool := s.senderIs == some .join

def senderInvited (s : Scene) : Bool := s.senderIs == some .invite

def senderKnocking (s : Scene) : Bool := s.senderIs == some .knock

def targetJoined (s : Scene) : Bool := s.targetIs == some .join

def targetBanned (s : Scene) : Bool := s.targetIs == some .ban

end Scene

/-- Judges the form of an invite of somebody outside, and that the sender made
the outside invite that it answers.  Its signatures are judged elsewhere. -/
def checkOutsideInvite (e : Event) (target : String) (auth : AuthEvents) : Verdict :=
  let invalid (fault : OutsideFault) : Verdict := .error (.membership (.outside fault))
  match (e.content.field? "third_party_invite").bind (·.field? "signed") with
  | some (.object members) =>
    let signed := Json.object members
    match signed.stringField? "mxid", signed.stringField? "token" with
    | some user, some token =>
      -- The faults are looked for in this order, and the first one is named.
      if user ≠ target then invalid .otherUser
      else
        match auth.get? (.thirdPartyInvite token) with
        | none => invalid .noMatch
        | some outside =>
          let signatures := ((signed.field? "signatures").bind Json.members?).any (!·.isEmpty)
          let keys := ((outside.content.field? "public_keys").bind Json.items?).any (!·.isEmpty)
          if outside.sender ≠ e.sender then invalid .otherSender
          else if !signatures then invalid .noSignatures
          else if !((outside.content.field? "public_key").isSome || keys) then invalid .noPublicKey
          else .ok ()
    | _, _ => invalid .noUserOrToken
  | _ => invalid .notSigned

/-- Judges a join that a member vouches for; nobody need vouch for a user who is
in the room or invited. -/
def checkRestrictedJoin (e : Event) (auth : AuthEvents) (s : Scene) : Verdict :=
  if s.senderJoined || s.senderInvited then .ok ()
  else
    match authoriser? e with
    | none => .error (.membership .noAuthoriser)
    | some user =>
      if auth.membership? user ≠ some .join then .error (.senderNotJoined user)
      else requireLevel (s.levels.named .invite) (s.levels.userLevel user)

/-- Judges a join by the join rule. -/
def checkJoinRule (e : Event) (auth : AuthEvents) (version : RoomVersion) (s : Scene) : Verdict :=
  if s.joinRule = "public" then .ok ()
  else if s.joinRule = "restricted" ∧ version.hasRestricted then checkRestrictedJoin e auth s
  else if s.joinRule = "knock_restricted" ∧ version.hasKnockRestricted then
    checkRestrictedJoin e auth s
  else if (s.joinRule = "knock" ∧ version.hasKnock) ∨ s.joinRule = "invite" then
    require (s.senderJoined || s.senderInvited) .notInvited
  else .error (.membership (.joinRule s.joinRule))

/-- Judges a join. -/
def checkJoin (e : Event) (auth : AuthEvents) (version : RoomVersion) (s : Scene) : Verdict := do
  require (s.sender == s.target) .joinForOther
  require (!s.targetBanned) (.banned s.target)
  checkJoinRule e auth version s

/-- Judges an invite by a member. -/
def checkInvite (s : Scene) : Verdict := do
  require (!s.targetBanned) (.banned s.target)
  require (!s.targetJoined) (.alreadyJoined s.target)
  requireLevel (s.levels.named .invite) s.senderLevel

/-- Judges a member who leaves or removes somebody. -/
def checkLeave (s : Scene) : Verdict := do
  require (!(s.targetBanned && s.senderLevel < s.levels.named .ban)) (.unban s.target)
  let outranked := s.levels.named .kick ≤ s.senderLevel && s.targetLevel < s.senderLevel
  require (s.target == s.sender || outranked) (.kick s.target)

/-- Judges a ban by a member. -/
def checkBan (s : Scene) : Verdict := do
  requireLevel (s.levels.named .ban) s.senderLevel
  require (s.targetLevel < s.senderLevel) (.ban s.target)

/-- Whether the join rule lets users knock. -/
def allowsKnock (version : RoomVersion) (rule : String) : Bool :=
  rule == "knock" || (version.hasKnockRestricted && rule == "knock_restricted")

/-- Judges a knock. -/
def checkKnock (version : RoomVersion) (s : Scene) : Verdict := do
  require (allowsKnock version s.joinRule) (.knockRule s.joinRule)
  require (s.target == s.sender) .knockForOther
  require (!s.targetJoined) (.alreadyJoined s.target)
  require (!s.senderInvited) (.alreadyInvited s.target)
  require (!s.targetBanned) (.banned s.target)

/-- Judges what only a member may do, except that who is invited or knocking may
leave. -/
def checkByMember (membership : Membership) (s : Scene) (judged : Verdict) : Verdict :=
  if (s.senderInvited || s.senderKnocking) && membership == .leave && s.target == s.sender then
    .ok ()
  else if !s.senderJoined then .error (.senderNotJoined s.sender)
  else judged

/-- Judges a change of membership in its scene. -/
def checkChange (e : Event) (auth : AuthEvents) (version : RoomVersion) (membership : Membership)
    (s : Scene) : Verdict :=
  match membership with
  | .join => checkJoin e auth version s
  | .knock =>
    if version.hasKnock then checkKnock version s else .error (.membership (.unknown "knock"))
  | .invite =>
    if (e.content.field? "third_party_invite").isSome then do
      checkOutsideInvite e s.target auth
      require (!s.targetBanned) (.banned s.target)
    else checkByMember .invite s (checkInvite s)
  | .leave => checkByMember .leave s (checkLeave s)
  | .ban => checkByMember .ban s (checkBan s)
  | .other word => checkByMember (.other word) s (.error (.membership (.unknown word)))

/-- Judges a member event in the room of a create event. -/
def checkMembership (e create : Event) (auth : AuthEvents) (version : RoomVersion) : Verdict :=
  match e.membership?, e.stateKey with
  | none, _ => .error (.malformedContent .noMembership)
  | some _, none => .error (.malformedContent .noStateKey)
  | some membership, some target =>
    if isCreatorsFirstJoin e create version target then .ok ()
    else do
      checkFederation target create
      checkChange e auth version membership (.ofEvent e target auth version)

end StateResolution
