import StateResolution.Proofs.Rules.Membership

/-!
# Who may act on whom

The ways through the membership rules (`Allowed`) are told apart by the membership they give.
Read by who acts, they say two things.

*On others.*  `OverOther` lists what a user can do about another one: invite, remove or ban,
each at the level it takes, and a removal or a ban only where the sender's level is above the
other's.  Whoever made an outside invite may also invite the user who answers it, and need
not be in the room for that.

*From outside.*  `FromOutside` lists what is open to a user who is not in the room.  All of it
is about membership, since every other event is sent by a member (`checkOther_eq_ok`).

The creator's first join asks for none of this, so it is set apart wherever these are used.
-/

namespace StateResolution

variable {e create : Event} {auth : AuthEvents} {version : RoomVersion} {levels : PowerLevels}
  {membership : Membership} {target user : String}

/-! ## The creator's first join -/

/-- The event is the join of the user who created the room, straight after the create event
that is in force. -/
def IsFirstJoin (e : Event) (auth : AuthEvents) (version : RoomVersion) (user : String) : Prop :=
  ∃ create, auth.create? = some create ∧ e.membership? = some .join ∧
    e.prevEvents = [create.id] ∧ roomCreator? create version = some user

theorem isCreatorsFirstJoin_iff :
    isCreatorsFirstJoin e create version user = true ↔
      e.membership? = some .join ∧ e.prevEvents = [create.id] ∧
        roomCreator? create version = some user := by
  simp only [isCreatorsFirstJoin, Bool.and_eq_true, beq_iff_eq, and_assoc]

/-- A member event that is accepted is the creator's first join or an allowed change. -/
theorem isFirstJoin_or_allowed (htype : e.type = EventType.member)
    (htarget : e.stateKey = some target) (h : checkEvent e auth version = .ok ()) :
    IsFirstJoin e auth version target ∨
      ∃ membership, e.membership? = some membership ∧
        Allowed e auth version (.ofEvent e target auth version) membership := by
  obtain ⟨create, membership, hcreate, hm, hfirst | hallowed⟩ :=
    allowed_of_checkEvent htype htarget h
  · exact .inl ⟨create, hcreate, isCreatorsFirstJoin_iff.1 hfirst⟩
  · exact .inr ⟨membership, hm, hallowed⟩

/-! ## Invites of somebody outside -/

/-- An invite answers an outside invite: what is signed in it names the user and has the token
under which an outside invite of the same sender stands, and the two carry signatures and a
key to check them with. -/
structure AnswersOutside (e : Event) (target : String) (auth : AuthEvents) (signed : Json)
    (token : String) (outside : Event) : Prop where
  part : (e.content.field? "third_party_invite").bind (·.field? "signed") = some signed
  named : signed.stringField? "mxid" = some target
  marked : signed.stringField? "token" = some token
  standing : auth.get? (.thirdPartyInvite token) = some outside
  sent : outside.sender = e.sender
  signatures : ((signed.field? "signatures").bind Json.members?).any (!·.isEmpty) = true
  key : (outside.content.field? "public_key").isSome = true ∨
    ((outside.content.field? "public_keys").bind Json.items?).any (!·.isEmpty) = true

theorem answersOutside_of_check (h : checkOutsideInvite e target auth = .ok ()) :
    ∃ signed token outside, AnswersOutside e target auth signed token outside := by
  unfold checkOutsideInvite at h
  split at h
  · next members hsigned =>
    dsimp only at h
    split at h
    · next user token huser htoken =>
      split at h
      · cases h
      · next htarget =>
        split at h
        · cases h
        · next outside hstanding =>
          split_ifs at h with hsender hsignatures hkey
          refine ⟨.object members, token, outside, hsigned, ?_, htoken, hstanding,
            not_not.1 hsender, ?_, ?_⟩
          · rw [huser, not_not.1 htarget]
          · simpa only [Bool.not_eq_true', Bool.not_eq_false] using hsignatures
          · simpa only [Bool.not_eq_true', Bool.not_eq_false, Bool.or_eq_true] using hkey
    · cases h
  · cases h

/-- The event invites a user who is not banned, in answer to an outside invite of its
sender's. -/
def InvitesFromOutside (e : Event) (auth : AuthEvents) (target : String) : Prop :=
  e.membership? = some .invite ∧
    (∃ signed token outside, AnswersOutside e target auth signed token outside) ∧
    auth.membership? target ≠ some .ban

/-! ## On others, and from outside -/

/-- What a user may do about another one. -/
inductive OverOther (e : Event) (auth : AuthEvents) (levels : PowerLevels) (target : String) : Prop
  | outsideInvite :
    InvitesFromOutside e auth target →
    OverOther e auth levels target
  | invite :
    e.membership? = some .invite →
    auth.membership? e.sender.text = some .join →
    auth.membership? target ≠ some .join →
    auth.membership? target ≠ some .ban →
    levels.named .invite ≤ levels.userLevel e.sender.text →
    OverOther e auth levels target
  /-- Whoever removes a banned user lifts the ban, and needs the level of a ban as well. -/
  | removal :
    e.membership? = some .leave →
    auth.membership? e.sender.text = some .join →
    levels.named .kick ≤ levels.userLevel e.sender.text →
    levels.userLevel target < levels.userLevel e.sender.text →
    (auth.membership? target = some .ban →
      levels.named .ban ≤ levels.userLevel e.sender.text) →
    OverOther e auth levels target
  | ban :
    e.membership? = some .ban →
    auth.membership? e.sender.text = some .join →
    levels.named .ban ≤ levels.userLevel e.sender.text →
    levels.userLevel target < levels.userLevel e.sender.text →
    OverOther e auth levels target

/-- What a user may do who is not in the room. -/
inductive FromOutside (e : Event) (auth : AuthEvents) (version : RoomVersion) : Prop
  | join :
    e.stateKey = some e.sender.text →
    e.membership? = some .join →
    FromOutside e auth version
  | knock :
    e.stateKey = some e.sender.text →
    e.membership? = some .knock →
    FromOutside e auth version
  /-- A user turns an invite down, or takes a knock back. -/
  | withdrawal :
    e.stateKey = some e.sender.text →
    e.membership? = some .leave →
    auth.membership? e.sender.text = some .invite ∨
      auth.membership? e.sender.text = some .knock →
    FromOutside e auth version
  | outsideInvite (target : String) :
    e.stateKey = some target →
    InvitesFromOutside e auth target →
    FromOutside e auth version
  | firstJoin (target : String) :
    e.stateKey = some target →
    IsFirstJoin e auth version target →
    FromOutside e auth version

section Allowed

variable (h : Allowed e auth version (.ofEvent e target auth version) membership)
  (hm : e.membership? = some membership)
include h hm

/-- An allowed change of another user's membership. -/
theorem Allowed.overOther (hother : target ≠ e.sender.text) :
    OverOther e auth (effectiveLevels auth version) target := by
  cases h with
  | join hself => exact absurd hself.symm hother
  | outsideInvite houtside hbanned =>
    exact .outsideInvite ⟨hm, answersOutside_of_check houtside, hbanned⟩
  | invite hsender hbanned hjoined hlevel => exact .invite hm hsender hjoined hbanned hlevel
  | withdraw _ hself => exact absurd hself hother
  | leave hsender hunban houtranked =>
    obtain ⟨hkick, habove⟩ := houtranked.resolve_left hother
    exact .removal hm hsender hkick habove hunban
  | ban hsender hlevel habove => exact .ban hm hsender hlevel habove
  | knock _ _ hself => exact absurd hself hother

/-- An allowed change of membership by a user who is not in the room. -/
theorem Allowed.fromOutside (htarget : e.stateKey = some target)
    (hout : auth.membership? e.sender.text ≠ some .join) : FromOutside e auth version := by
  cases h with
  | join hself => exact .join (htarget.trans (congrArg some hself.symm)) hm
  | outsideInvite houtside hbanned =>
    exact .outsideInvite target htarget ⟨hm, answersOutside_of_check houtside, hbanned⟩
  | invite hsender => exact absurd hsender hout
  | withdraw hsender hself =>
    exact .withdrawal (htarget.trans (congrArg some hself)) hm hsender
  | leave hsender => exact absurd hsender hout
  | ban hsender => exact absurd hsender hout
  | knock _ _ hself => exact .knock (htarget.trans (congrArg some hself)) hm

end Allowed

/-! ## Bans -/

/-- Where a user is banned, the rules accept no other change than a removal or another ban by
a member above the user who may ban, unless it is the creator's first join. -/
theorem ban_lifted_by_ban_power (e : Event) (auth : AuthEvents) (version : RoomVersion)
    (target : String) (htype : e.type = EventType.member) (htarget : e.stateKey = some target)
    (hban : auth.membership? target = some .ban) (h : checkEvent e auth version = .ok ()) :
    IsFirstJoin e auth version target ∨
      (e.sender.text ≠ target ∧ auth.membership? e.sender.text = some .join ∧
        (e.membership? = some .leave ∨ e.membership? = some .ban) ∧
        let levels := effectiveLevels auth version
        let level := levels.userLevel e.sender.text
        levels.named .ban ≤ level ∧ levels.userLevel target < level ∧
          (e.membership? = some .leave → levels.named .kick ≤ level)) := by
  rcases isFirstJoin_or_allowed htype htarget h with hfirst | ⟨membership, hm, hallowed⟩
  · exact .inl hfirst
  · refine .inr ?_
    have hother : target ≠ e.sender.text :=
      (hallowed.removal_of_banned (fun heq => congrArg auth.membership? heq) hban).1
    refine ⟨hother.symm, ?_⟩
    cases hallowed.overOther hm hother with
    | outsideInvite houtside => exact absurd hban houtside.2.2
    | invite _ _ _ hbanned => exact absurd hban hbanned
    | removal hleave hsender hkick habove hunban =>
      exact ⟨hsender, .inl hleave, hunban hban, habove, fun _ => hkick⟩
    | ban hbans hsender hlevel habove =>
      refine ⟨hsender, .inr hbans, hlevel, habove, fun hleave => ?_⟩
      cases hbans.symm.trans hleave

def mill : RoomId := ⟨"!mill", by decide⟩

def ada : UserId := ⟨"@ada:mill", by decide⟩

def bea : UserId := ⟨"@bea:mill", by decide⟩

def col : UserId := ⟨"@col:mill", by decide⟩

def millCreate : Event :=
  { Event.blank ⟨"$mill", by decide⟩ mill ada EventType.create with
    content := .object [("room_version", .string "10"), ("creator", .string ada.text)]
    stateKey := some "" }

/-- A ban takes more than a removal, and one member has just enough for it. -/
def millLevels : Event :=
  { Event.blank ⟨"$ranks", by decide⟩ mill ada EventType.powerLevels with
    content := .object [("ban", .integer 60), ("kick", .integer 50),
      ("users", .object [(ada.text, .integer 100), (bea.text, .integer 60),
        (col.text, .integer 50)])]
    stateKey := some "" }

def beaJoined : Event :=
  { Event.blank ⟨"$bea", by decide⟩ mill bea EventType.member with
    content := .object [("membership", .string "join")]
    stateKey := some bea.text }

def colBanned : Event :=
  { Event.blank ⟨"$col", by decide⟩ mill ada EventType.member with
    content := .object [("membership", .string "ban")]
    stateKey := some col.text }

/-- A ban is lifted again. -/
def colPardoned : Event :=
  { Event.blank ⟨"$pardon", by decide⟩ mill bea EventType.member with
    content := .object [("membership", .string "leave")]
    stateKey := some col.text }

def millAuth : AuthEvents := .ofList [millCreate, millLevels, beaJoined, colBanned]

/-- The member with just enough lifts the ban of one with less. -/
theorem ban_lifted_by_ban_power_colPardoned :
    millAuth.membership? col.text = some .ban ∧ checkEvent colPardoned millAuth .v10 = .ok () ∧
      (effectiveLevels millAuth .v10).named .ban ≤
        (effectiveLevels millAuth .v10).userLevel bea.text := by
  have hban : millAuth.membership? col.text = some .ban := by decide +kernel
  have hcheck : checkEvent colPardoned millAuth .v10 = .ok () := by decide +kernel
  refine ⟨hban, hcheck, ?_⟩
  rcases ban_lifted_by_ban_power colPardoned millAuth .v10 col.text rfl rfl hban hcheck with
    ⟨_, -, hjoin, -⟩ | ⟨-, -, -, hlevel, -⟩
  · exact absurd hjoin (by decide +kernel)
  · exact hlevel

/-! ## Authority -/

/-- What the rules accept about another user is what `OverOther` lists, and what they accept
from a user who is not in the room is a member event and what `FromOutside` lists. -/
theorem authority_of_checkEvent (e : Event) (auth : AuthEvents) (version : RoomVersion)
    (hcreate : e.type ≠ EventType.create) (h : checkEvent e auth version = .ok ()) :
    (∀ target, e.type = EventType.member → e.stateKey = some target → target ≠ e.sender.text →
      ¬ IsFirstJoin e auth version target →
      OverOther e auth (effectiveLevels auth version) target) ∧
    (auth.membership? e.sender.text ≠ some .join →
      e.type = EventType.member ∧ FromOutside e auth version) := by
  constructor
  · intro target htype htarget hother hfirst
    obtain ⟨membership, hm, hallowed⟩ :=
      (isFirstJoin_or_allowed htype htarget h).resolve_left hfirst
    exact hallowed.overOther hm hother
  · intro hout
    obtain ⟨create, hcreated, -, hrules⟩ := (checkEvent_eq_ok hcreate).1 h
    split at hrules
    · next htype =>
      refine ⟨htype, ?_⟩
      obtain ⟨membership, target, hm, htarget, hfirst | hallowed⟩ :=
        allowed_of_checkMembership hrules
      · exact .firstJoin target htarget ⟨create, hcreated, isCreatorsFirstJoin_iff.1 hfirst⟩
      · exact hallowed.fromOutside hm htarget hout
    · exact absurd (checkOther_eq_ok.1 hrules).1 hout

def dot : UserId := ⟨"@dot:mill", by decide⟩

def beaOutside : Event :=
  { Event.blank ⟨"$letter", by decide⟩ mill bea EventType.thirdPartyInvite with
    content := .object [("public_key", .string "key")]
    stateKey := some "letter" }

/-- The answer to an outside invite whose sender has left since. -/
def dotInvited : Event :=
  { Event.blank ⟨"$dot", by decide⟩ mill bea EventType.member with
    content := .object [("membership", .string "invite"),
      ("third_party_invite", .object [("signed", .object [("mxid", .string dot.text),
        ("token", .string "letter"), ("signatures", .object [("mill", .object [])])])])]
    stateKey := some dot.text }

/-- The one thing that can be done about another user from outside. -/
theorem authority_of_checkEvent_dotInvited :
    let auth : AuthEvents := .ofList [millCreate, millLevels, beaOutside]
    checkEvent dotInvited auth .v10 = .ok () ∧
      OverOther dotInvited auth (effectiveLevels auth .v10) dot.text ∧
      FromOutside dotInvited auth .v10 := by
  intro auth
  have hcheck : checkEvent dotInvited auth .v10 = .ok () := by decide +kernel
  obtain ⟨hother, hout⟩ :=
    authority_of_checkEvent dotInvited auth .v10 (by decide) hcheck
  refine ⟨hcheck, hother dot.text rfl rfl (by decide) ?_, (hout (by decide +kernel)).2⟩
  rintro ⟨_, -, hjoin, -⟩
  exact absurd hjoin (by decide +kernel)

end StateResolution
