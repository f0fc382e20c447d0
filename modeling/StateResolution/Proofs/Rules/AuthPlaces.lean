import StateResolution.Rules.Authorization

/-!
# The rules read what matters

`authPlaces` says which places matter for an event, and the rules look nowhere else: sets of
auth events that agree there (`AuthEvents.AgreeOn`) give an event the same verdict, with the
same reason.

Every event is judged by the create event, the power levels and its sender.  What a change
of membership reads beside these depends on the membership: only a join, an invite and a
knock look at the join rule, though every scene has one.
-/

namespace StateResolution

variable {e : Event} {auth auth' : AuthEvents} {version : RoomVersion} {k : StateKey}
  {membership : Membership} {target : String}

/-! ## The places that matter -/

theorem mem_memberPlaces :
    k ∈ memberPlaces e version membership ↔
      ((membership = .join ∨ membership = .invite ∨ membership = .knock) ∧ k = .joinRules) ∨
        (∃ target, e.stateKey = some target ∧ k = .member target) ∨
        (∃ token, outsideToken? e = some token ∧ membership = .invite ∧
          k = .thirdPartyInvite token) ∨
        ∃ user, authoriser? e = some user ∧ (membership = .join ∧ version.hasRestricted = true) ∧
          k = .member user := by
  unfold memberPlaces
  simp only [List.mem_append, or_assoc]
  refine or_congr ?_ (or_congr ?_ (or_congr ?_ ?_))
  · rw [List.mem_ite_nil_right, List.mem_singleton]
  · cases e.stateKey <;> simp
  · cases outsideToken? e <;> simp
  · cases authoriser? e <;> simp

theorem mem_authPlaces (h : e.type ≠ EventType.create) :
    k ∈ authPlaces e version ↔
      k = .powerLevels ∨ k = .member e.sender.text ∨ k = .create ∨
        ∃ membership, e.membership? = some membership ∧ k ∈ memberPlaces e version membership := by
  rw [authPlaces, if_neg h, SortedSet.mem_ofList]
  cases e.membership? <;> simp

theorem powerLevels_mem_authPlaces (h : e.type ≠ EventType.create) :
    .powerLevels ∈ authPlaces e version :=
  (mem_authPlaces h).2 (.inl rfl)

theorem sender_mem_authPlaces (h : e.type ≠ EventType.create) :
    .member e.sender.text ∈ authPlaces e version :=
  (mem_authPlaces h).2 (.inr (.inl rfl))

theorem create_mem_authPlaces (h : e.type ≠ EventType.create) : .create ∈ authPlaces e version :=
  (mem_authPlaces h).2 (.inr (.inr (.inl rfl)))

theorem mem_authPlaces_of_membership (hm : e.membership? = some membership)
    (hk : k ∈ memberPlaces e version membership) : k ∈ authPlaces e version := by
  refine (mem_authPlaces fun hcreate => ?_).2 (.inr (.inr (.inr ⟨membership, hm, hk⟩)))
  rw [Event.membership?, hcreate, if_neg (by decide)] at hm
  cases hm

theorem target_mem_authPlaces (hm : e.membership? = some membership)
    (htarget : e.stateKey = some target) : .member target ∈ authPlaces e version :=
  mem_authPlaces_of_membership hm (mem_memberPlaces.2 (.inr (.inl ⟨target, htarget, rfl⟩)))

/-! ## What is read from the auth events -/

/-- Two sets of auth events have the same event, or both none, at each of some places. -/
def AuthEvents.AgreeOn (places : SortedSet StateKey) (auth auth' : AuthEvents) : Prop :=
  ∀ k ∈ places, auth.get? k = auth'.get? k

theorem AuthEvents.membership?_congr {user : String}
    (h : auth.get? (.member user) = auth'.get? (.member user)) :
    auth.membership? user = auth'.membership? user := by
  rw [membership?, membership?, h]

theorem effectiveLevels_congr (hlevels : auth.get? .powerLevels = auth'.get? .powerLevels)
    (hcreate : auth.get? .create = auth'.get? .create) :
    effectiveLevels auth version = effectiveLevels auth' version := by
  simp only [effectiveLevels, AuthEvents.powerLevels?, AuthEvents.create?, hlevels, hcreate]

section Agree

variable (h : AuthEvents.AgreeOn (authPlaces e version) auth auth')
include h

theorem levels_eq_of_agreeOn (hcreate : e.type ≠ EventType.create) :
    effectiveLevels auth version = effectiveLevels auth' version :=
  effectiveLevels_congr (h _ (powerLevels_mem_authPlaces hcreate))
    (h _ (create_mem_authPlaces hcreate))

theorem sender_eq_of_agreeOn (hcreate : e.type ≠ EventType.create) :
    auth.membership? e.sender.text = auth'.membership? e.sender.text :=
  AuthEvents.membership?_congr (h _ (sender_mem_authPlaces hcreate))

/-! ## Changes of membership -/

/-- The scenes of an event differ at most in the join rule. -/
theorem scene_of_agreeOn (hcreate : e.type ≠ EventType.create)
    (hm : e.membership? = some membership) (htarget : e.stateKey = some target) :
    Scene.ofEvent e target auth version =
      { Scene.ofEvent e target auth' version with joinRule := auth.joinRule } := by
  simp only [Scene.ofEvent, sender_eq_of_agreeOn h hcreate, levels_eq_of_agreeOn h hcreate,
    AuthEvents.membership?_congr (h _ (target_mem_authPlaces hm htarget))]

/-- For a membership that is asked for, they do not differ there either. -/
theorem scene_eq_of_agreeOn (hcreate : e.type ≠ EventType.create)
    (hm : e.membership? = some membership) (htarget : e.stateKey = some target)
    (hrule : membership = .join ∨ membership = .invite ∨ membership = .knock) :
    Scene.ofEvent e target auth version = Scene.ofEvent e target auth' version := by
  have hplace : StateKey.joinRules ∈ authPlaces e version :=
    mem_authPlaces_of_membership hm (mem_memberPlaces.2 (.inl ⟨hrule, rfl⟩))
  have hjoin : auth.joinRule = auth'.joinRule := by
    rw [AuthEvents.joinRule, AuthEvents.joinRule, h _ hplace]
  rw [scene_of_agreeOn h hcreate hm htarget, hjoin]
  rfl

theorem checkOutsideInvite_of_agreeOn (hm : e.membership? = some .invite) :
    checkOutsideInvite e target auth = checkOutsideInvite e target auth' := by
  unfold checkOutsideInvite
  split
  · next members hsigned =>
    dsimp only
    split
    · next user token _ htoken =>
      have hread : outsideToken? e = some token := by
        rw [outsideToken?, hsigned]
        exact htoken
      have hplace : StateKey.thirdPartyInvite token ∈ authPlaces e version :=
        mem_authPlaces_of_membership hm
          (mem_memberPlaces.2 (.inr (.inr (.inl ⟨token, hread, rfl, rfl⟩))))
      rw [h _ hplace]
    · rfl
  · rfl

theorem checkRestrictedJoin_of_agreeOn (hm : e.membership? = some .join)
    (hversion : version.hasRestricted = true) (s : Scene) :
    checkRestrictedJoin e auth s = checkRestrictedJoin e auth' s := by
  unfold checkRestrictedJoin
  split
  · rfl
  · split
    · rfl
    · next user huser =>
      have hplace : StateKey.member user ∈ authPlaces e version :=
        mem_authPlaces_of_membership hm
          (mem_memberPlaces.2 (.inr (.inr (.inr ⟨user, huser, ⟨rfl, hversion⟩, rfl⟩))))
      rw [AuthEvents.membership?_congr (h _ hplace)]

theorem checkJoin_of_agreeOn (hm : e.membership? = some .join) (s : Scene) :
    checkJoin e auth version s = checkJoin e auth' version s := by
  have hrule : checkJoinRule e auth version s = checkJoinRule e auth' version s := by
    unfold checkJoinRule
    by_cases hversion : version.hasRestricted = true
    · rw [checkRestrictedJoin_of_agreeOn h hm hversion]
    · -- A version without restricted joins has none that knocking goes with either.
      have hboth : ¬ version.hasKnockRestricted = true := by
        revert hversion
        cases version <;> decide
      simp only [hversion, hboth, Bool.false_eq_true, and_false, if_false]
  rw [checkJoin, checkJoin, hrule]

theorem checkChange_of_agreeOn (hcreate : e.type ≠ EventType.create)
    (hm : e.membership? = some membership) (htarget : e.stateKey = some target) :
    checkChange e auth version membership (.ofEvent e target auth version) =
      checkChange e auth' version membership (.ofEvent e target auth' version) := by
  cases membership with
  | join =>
    rw [scene_eq_of_agreeOn h hcreate hm htarget (.inl rfl)]
    exact checkJoin_of_agreeOn h hm _
  | invite =>
    rw [scene_eq_of_agreeOn h hcreate hm htarget (.inr (.inl rfl)), checkChange, checkChange,
      checkOutsideInvite_of_agreeOn h hm]
  | knock =>
    rw [scene_eq_of_agreeOn h hcreate hm htarget (.inr (.inr rfl))]
    rfl
  | leave | ban | other =>
    -- The join rule is the one field of the scene that these do not read.
    rw [scene_of_agreeOn h hcreate hm htarget]
    rfl

theorem checkMembership_of_agreeOn (hcreate : e.type ≠ EventType.create) (create : Event) :
    checkMembership e create auth version = checkMembership e create auth' version := by
  unfold checkMembership
  split
  · rfl
  · rfl
  · next membership target hm htarget => rw [checkChange_of_agreeOn h hcreate hm htarget]

/-! ## Other events -/

theorem checkOther_of_agreeOn (hcreate : e.type ≠ EventType.create) :
    checkOther e auth version = checkOther e auth' version := by
  have hlevels : auth.powerLevels? = auth'.powerLevels? :=
    h _ (powerLevels_mem_authPlaces hcreate)
  simp only [checkOther, checkLevelChange, sender_eq_of_agreeOn h hcreate,
    levels_eq_of_agreeOn h hcreate, hlevels]

theorem checkEvent_of_agreeOn (hcreate : e.type ≠ EventType.create) :
    checkEvent e auth version = checkEvent e auth' version := by
  have hcreated : auth.create? = auth'.create? := h _ (create_mem_authPlaces hcreate)
  simp only [checkEvent, hcreated, checkMembership_of_agreeOn h hcreate,
    checkOther_of_agreeOn h hcreate]

end Agree

/-- A create event is judged by itself. -/
theorem checkEvent_of_create (hcreate : e.type = EventType.create) (auth : AuthEvents) :
    checkEvent e auth version = checkCreate e := by
  rw [checkEvent, if_pos hcreate]

/-- Sets of auth events that agree on the places that matter for an event give it the same
verdict. -/
theorem checkEvent_eq_of_agreeOn (e : Event) (version : RoomVersion) (auth auth' : AuthEvents)
    (h : AuthEvents.AgreeOn (authPlaces e version) auth auth') :
    checkEvent e auth version = checkEvent e auth' version := by
  by_cases hcreate : e.type = EventType.create
  · rw [checkEvent_of_create hcreate, checkEvent_of_create hcreate]
  · exact checkEvent_of_agreeOn h hcreate

def den : RoomId := ⟨"!den", by decide⟩

def cat : UserId := ⟨"@cat:den", by decide⟩

def dan : UserId := ⟨"@dan:den", by decide⟩

def eve : UserId := ⟨"@eve:den", by decide⟩

def denCreate : Event :=
  { Event.blank ⟨"$den", by decide⟩ den cat EventType.create with
    content := .object [("room_version", .string "10"), ("creator", .string cat.text)]
    stateKey := some "" }

def catJoined : Event :=
  { Event.blank ⟨"$cat", by decide⟩ den cat EventType.member with
    content := .object [("membership", .string "join")]
    stateKey := some cat.text
    prevEvents := [denCreate.id]
    authEvents := [denCreate.id] }

def denRestricted : Event :=
  { Event.blank ⟨"$restricted", by decide⟩ den cat EventType.joinRules with
    content := .object [("join_rule", .string "restricted")]
    stateKey := some ""
    authEvents := [denCreate.id, catJoined.id] }

/-- A join that another member vouches for. -/
def danJoins : Event :=
  { Event.blank ⟨"$dan", by decide⟩ den dan EventType.member with
    content := .object [("membership", .string "join"),
      ("join_authorised_via_users_server", .string cat.text)]
    stateKey := some dan.text
    authEvents := [denCreate.id, catJoined.id, denRestricted.id] }

def eveBanned : Event :=
  { Event.blank ⟨"$eve", by decide⟩ den cat EventType.member with
    content := .object [("membership", .string "ban")]
    stateKey := some eve.text
    authEvents := [denCreate.id, catJoined.id] }

/-- What is said of a third user does not show in the judgment of the join. -/
theorem checkEvent_eq_of_agreeOn_eveBanned :
    let auth : AuthEvents := .ofList [denCreate, catJoined, denRestricted]
    auth.membership? eve.text ≠ (auth.insert eveBanned).membership? eve.text ∧
      auth.AgreeOn (authPlaces danJoins .v10) (auth.insert eveBanned) ∧
      checkEvent danJoins auth .v10 = checkEvent danJoins (auth.insert eveBanned) .v10 := by
  intro auth
  have hplaces : ∀ k ∈ (authPlaces danJoins .v10).toList, ¬ eveBanned.place? = some k := by
    decide +kernel
  have hagree : auth.AgreeOn (authPlaces danJoins .v10) (auth.insert eveBanned) := by
    intro k hk
    rw [AuthEvents.get?_insert, if_neg (hplaces k hk)]
  exact ⟨by decide +kernel, hagree, checkEvent_eq_of_agreeOn danJoins .v10 _ _ hagree⟩

/-- The member who vouches for the join does show. -/
example :
    (checkEvent danJoins (.ofList [denCreate, catJoined, denRestricted]) .v10).isOk = true ∧
      (checkEvent danJoins (.ofList [denCreate, denRestricted]) .v10).isOk = false := by
  decide +kernel

end StateResolution
